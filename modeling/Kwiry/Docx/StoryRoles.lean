import Kwiry.Docx.StoryPlaces
import Kwiry.Foundations.Traces

/-!
# Roles of Story Text

Whether hidden text is latent. An element of a part is open from its start to its end, and the
text of a story is hidden by the elements it stands in. The parser does not keep these elements. It
keeps one flag for the run and one for the paragraph, and it reads them once, where a text element
opens. The flags and the elements part in three ways: any tag of a run clears the flag, so that a
hidden run that holds a run shows what follows it; a mark or a style that comes after the text
element opened is not seen; and a text element that closes inside another ends both. In a plain
story, where nothing of this happens, they agree.
-/

namespace Kwiry.Docx

open Foundations List

/-! ## §1 Open elements -/

/-- The name of an element, if it is one of word processing. -/
def wordTag (nameSpace : Option Text) (localName : Text) : StoryTag :=
  if isWordprocessing nameSpace then storyTag localName else .other

def XmlElement.tag (element : XmlElement) : StoryTag :=
  wordTag element.nameSpace element.localName

/-- The name of the element an event starts or ends. -/
def XmlEvent.tag : XmlEvent → StoryTag
  | .start element | .empty element => element.tag
  | .stop nameSpace localName => wordTag nameSpace localName
  | .text _ => .other

/-- The elements open, innermost first, each with the position of its start. An end closes the
innermost, and has its name. -/
def nest (stack : List (ℕ × XmlElement)) : XmlEvent × ℕ → Option (List (ℕ × XmlElement))
  | (.start element, position) => some ((position, element) :: stack)
  | (.stop nameSpace localName, _) =>
    match stack with
    | [] => none
    | (_, element) :: rest =>
      if element.nameSpace = nameSpace ∧ element.localName = localName then some rest else none
  | (.empty _, _) | (.text _, _) => some stack

def openElements (events : List XmlEvent) : Option (List (ℕ × XmlElement)) :=
  events.zipIdx.foldlM nest []

/-- Every end closes the element that was opened last, as in any XML. -/
def WellNested (events : List XmlEvent) : Prop :=
  (openElements events).isSome

variable (events : List XmlEvent) (styles : Styles)

/-- The elements open where an event stands. -/
def openAt (position : ℕ) : List (ℕ × XmlElement) :=
  (openElements (events.take position)).getD []

/-! ## §2 What hides a text -/

def isText (tag : StoryTag) : Bool :=
  tag = .t ∨ tag = .instrText ∨ tag = .delText

def isDeletion (tag : StoryTag) : Bool :=
  tag = .del ∨ tag = .moveFrom

/-- An event opens an element, maybe to close it at once. -/
def Opens (position : ℕ) (element : XmlElement) : Prop :=
  ∃ event, events[position]? = some event ∧ event.element = some element ∧
    isWordprocessing element.nameSpace = true

/-- A mark at this position hides the run it stands in. -/
def RunMark (position : ℕ) : Prop :=
  ∃ element, Opens events position element ∧ hidesRun styles element = true

/-- The paragraph's style, at this position. -/
def StyleMark (position : ℕ) : Prop :=
  ∃ element, Opens events position element ∧ element.tag = .pStyle

/-- A run is hidden when a mark stands in it, and in no run inside it. -/
def RunHidden (run : ℕ × XmlElement) : Prop :=
  ∃ mark, RunMark events styles mark ∧
    (openAt events mark).find? (fun element => element.2.tag = .r) = some run

/-- A paragraph is hidden when the style it is given last is. -/
def ParagraphHidden (paragraph : ℕ × XmlElement) : Prop :=
  ∃ position element, Opens events position element ∧ hidesParagraph styles element = true ∧
    paragraph ∈ openAt events position ∧
      ∀ later, position < later → StyleMark events later → paragraph ∉ openAt events later

/-- What stands at a position is deleted, is an instruction, or is in a hidden run or paragraph. -/
def Hidden (position : ℕ) : Prop :=
  ∃ element ∈ openAt events position,
    isDeletion element.2.tag = true ∨ element.2.tag = .instrText ∨ element.2.tag = .delText ∨
      (element.2.tag = .r ∧ RunHidden events styles element) ∨
      (element.2.tag = .p ∧ ParagraphHidden events styles element)

/-- A text that is not blank, in a text element of a paragraph. -/
def StoryText (position : ℕ) : Prop :=
  (∃ text, events[position]? = some (.text text) ∧ isBlank text = false) ∧
    ∃ element ∈ openAt events position, isText element.2.tag = true ∧
      ∃ paragraph ∈ openAt events position, paragraph.2.tag = .p ∧ paragraph.1 < element.1

/-- Every text of the story is in one section, once, and that section is latent exactly when the
text is hidden and of the story's role otherwise. The characters of a section are those of the texts
it holds. -/
structure TextConserved (baseRole : ContentRole) (sections : List SemanticSection) : Prop where
  faithful : ∀ piece ∈ sections, piece.content.Faithful (StoryParser.toldBy events)
  once : ∀ position, StoryText events position → ∃ piece,
    sections.filter (position ∈ ·.content.sources) = [piece] ∧
      piece.content.sources.count position = 1 ∧
      (Hidden events styles position → piece.role = .latent) ∧
      (¬ Hidden events styles position → piece.role = baseRole)

/-! ## §3 What the flags say -/

def RunTag (position : ℕ) : Prop :=
  ∃ event, events[position]? = some event ∧ event.tag = .r

def TextTag (position : ℕ) : Prop :=
  ∃ event, events[position]? = some event ∧ isText event.tag = true

/-- A text element starts, and does not end at once. -/
def TextStart (position : ℕ) : Prop :=
  ∃ element, events[position]? = some (.start element) ∧ isText element.tag = true

def HiddenStyle (position : ℕ) : Prop :=
  ∃ element, Opens events position element ∧ hidesParagraph styles element = true

def StyleReset (position : ℕ) : Prop :=
  ∃ element, Opens events position element ∧ (element.tag = .p ∨ element.tag = .pStyle)

/-- Hiding is in force for a text element that starts here: it is an instruction or a deleted text,
a deletion is open, the last mark has no run tag after it, or the last style given since the
paragraph began is hidden. -/
def HidingReaches (position : ℕ) : Prop :=
  (∃ element, events[position]? = some (.start element) ∧
      (element.tag = .instrText ∨ element.tag = .delText)) ∨
    (∃ element ∈ openAt events position, isDeletion element.2.tag = true) ∨
    Since (RunMark events styles) (RunTag events) position ∨
    Since (HiddenStyle events styles) (StyleReset events) position

/-- Before every text of the story the last tag of a text element is a start, and hiding is in force
there exactly when the text is hidden. -/
def RolesMirrored : Prop :=
  ∀ position, StoryText events position →
    Since (fun start => TextStart events start ∧
        (HidingReaches events styles start ↔ Hidden events styles position))
      (TextTag events) position

/-! ## §4 The open elements along a part -/

variable {stack stack' : List (ℕ × XmlElement)} {opened : ℕ × XmlElement}

variable {localName : Text}

section Open

variable {events} {styles} {position : ℕ} {event : XmlEvent}

lemma openAt_zero : openAt events 0 = [] := by
  simp [openAt, openElements]

lemma openElements_append (before after : List XmlEvent) :
    openElements (before ++ after) =
      (openElements before).bind fun stack => (after.zipIdx before.length).foldlM nest stack := by
  rw [openElements, zipIdx_append, foldlM_append, Nat.zero_add]
  rfl

lemma openAt_eq (h : WellNested events) (position : ℕ) :
    openElements (events.take position) = some (openAt events position) := by
  rw [WellNested, ← take_append_drop position events, openElements_append] at h
  cases hinitial : openElements (events.take position) with
  | none =>
    rw [hinitial] at h
    cases h
  | some stack => rw [openAt, hinitial, Option.getD_some]

lemma nest_openAt (h : WellNested events) (hevent : events[position]? = some event) :
    nest (openAt events position) (event, position) = some (openAt events (position + 1)) := by
  have hlength : (events.take position).length = position := by
    have hlt := (List.getElem?_eq_some_iff.mp hevent).1
    rw [length_take]
    omega
  have hnext := openAt_eq h (position + 1)
  rw [take_add_one, hevent, Option.toList_some, openElements_append, openAt_eq h, hlength] at hnext
  simpa using hnext

lemma nest_stop {nameSpace : Option Text}
    (h : nest stack (.stop nameSpace localName, position) = some stack') :
    ∃ opened, stack = opened :: stack' ∧ opened.2.tag = wordTag nameSpace localName := by
  unfold nest at h
  cases stack with
  | nil => cases h
  | cons opened rest =>
    dsimp only at h
    split at h
    next hname =>
      cases h
      exact ⟨opened, rfl, by rw [XmlElement.tag, hname.1, hname.2]⟩
    next => cases h

/-- What is open after an event was open before it, or starts with it. -/
theorem mem_nest (h : nest stack (event, position) = some stack') (hmem : opened ∈ stack') :
    opened ∈ stack ∨ opened.1 = position ∧ event = .start opened.2 := by
  cases event with
  | start element =>
    cases h
    rcases mem_cons.mp hmem with rfl | hmem
    · exact .inr ⟨rfl, rfl⟩
    · exact .inl hmem
  | empty element =>
    cases h
    exact .inl hmem
  | stop nameSpace localName =>
    obtain ⟨closed, rfl, -⟩ := nest_stop h
    exact .inl (mem_cons_of_mem _ hmem)
  | text text =>
    cases h
    exact .inl hmem

/-- An open element has started before, and has been open since. -/
theorem mem_openAt (h : WellNested events) (hposition : position ≤ events.length)
    (hmem : opened ∈ openAt events position) :
    opened.1 < position ∧ events[opened.1]? = some (.start opened.2) ∧
      ∀ earlier, opened.1 < earlier → earlier ≤ position → opened ∈ openAt events earlier := by
  induction position with
  | zero =>
    rw [openAt_zero] at hmem
    cases hmem
  | succ position ih =>
    have hevent : events[position]? = some events[position] := getElem?_eq_getElem hposition
    rcases mem_nest (nest_openAt h hevent) hmem with hbefore | ⟨hstart, hopen⟩
    · obtain ⟨hlt, hopen, hsince⟩ := ih (by omega) hbefore
      refine ⟨by omega, hopen, fun earlier hafter hle => ?_⟩
      rcases Nat.lt_or_eq_of_le hle with hlt' | rfl
      · exact hsince earlier hafter (by omega)
      · exact hmem
    · rw [hstart]
      refine ⟨by omega, by rw [hevent, hopen], fun earlier hafter hle => ?_⟩
      have heq : earlier = position + 1 := by omega
      rw [heq]
      exact hmem

end Open

/-! ## §5 One event and the flags -/

variable {element : XmlElement}

namespace Flags

variable {baseRole : ContentRole} {styles} {flags : Flags} {event : XmlEvent}

lemma runHidden_enter (element : XmlElement) :
    (flags.enter baseRole styles element).runHidden = true ↔
      hidesRun styles element = true ∨ flags.runHidden = true ∧ storyTag element.localName ≠ .r := by
  cases htag : storyTag element.localName <;> simp [enter, hidesRun, htag, or_comm]

lemma runHidden_leave (localName : Text) :
    (flags.leave localName).runHidden = true ↔
      flags.runHidden = true ∧ storyTag localName ≠ .r := by
  cases htag : storyTag localName <;> simp [leave, htag]

lemma hidesRun_ne_r (h : hidesRun styles element = true) : storyTag element.localName ≠ .r := by
  intro htag
  rw [hidesRun, htag] at h
  cases h

lemma runHidden_onEvent :
    (flags.onEvent baseRole styles event).runHidden = true ↔
      (∃ element, event.element = some element ∧ isWordprocessing element.nameSpace = true ∧
        hidesRun styles element = true) ∨ flags.runHidden = true ∧ event.tag ≠ .r := by
  cases event with
  | start element =>
    by_cases hword : isWordprocessing element.nameSpace = true
    · simp [onEvent, hword, runHidden_enter, XmlEvent.element, XmlEvent.tag, XmlElement.tag, wordTag]
    · simp [onEvent, hword, XmlEvent.element, XmlEvent.tag, XmlElement.tag, wordTag]
  | empty element =>
    by_cases hword : isWordprocessing element.nameSpace = true
    · have hne : hidesRun styles element = true → storyTag element.localName ≠ .r := hidesRun_ne_r
      simp only [onEvent, hword, if_true, runHidden_leave, runHidden_enter, XmlEvent.element,
        Option.some.injEq, exists_eq_left', true_and, XmlEvent.tag, XmlElement.tag, wordTag]
      tauto
    · simp [onEvent, hword, XmlEvent.element, XmlEvent.tag, XmlElement.tag, wordTag]
  | stop nameSpace localName =>
    by_cases hword : isWordprocessing nameSpace = true
    · simp [onEvent, hword, runHidden_leave, XmlEvent.element, XmlEvent.tag, wordTag]
    · simp [onEvent, hword, XmlEvent.element, XmlEvent.tag, wordTag]
  | text text => simp [onEvent, XmlEvent.element, XmlEvent.tag]

/-- The flag of the paragraph, as long as one is open after the event. -/
theorem paragraphHidden_enter (element : XmlElement)
    (h : (flags.enter baseRole styles element).inParagraph = true) :
    (flags.enter baseRole styles element).paragraphHidden = true ↔
      hidesParagraph styles element = true ∨ flags.paragraphHidden = true ∧
        storyTag element.localName ≠ .p ∧ storyTag element.localName ≠ .pStyle := by
  cases htag : storyTag element.localName <;> simp_all [enter, hidesParagraph]

lemma paragraphHidden_leave (localName : Text) :
    (flags.leave localName).paragraphHidden = flags.paragraphHidden := by
  cases htag : storyTag localName <;> simp [leave, htag]

lemma inParagraph_of_leave (h : (flags.leave localName).inParagraph = true) :
    flags.inParagraph = true := by
  cases htag : storyTag localName <;> simp_all [leave]

lemma inParagraph_of_enter (h : (flags.enter baseRole styles element).inParagraph = true) :
    flags.inParagraph = true ∨ storyTag element.localName = .p := by
  cases htag : storyTag element.localName <;> simp_all [enter]

lemma inParagraph_of_onEvent (h : (flags.onEvent baseRole styles event).inParagraph = true) :
    flags.inParagraph = true ∨ ∃ element, event.element = some element ∧
      isWordprocessing element.nameSpace = true ∧ storyTag element.localName = .p := by
  unfold onEvent at h
  split at h
  case h_1 element =>
    split at h
    next hword =>
      rcases inParagraph_of_enter h with h | htag
      · exact .inl h
      · exact .inr ⟨element, rfl, hword, htag⟩
    next => exact .inl h
  case h_2 element =>
    split at h
    next hword =>
      rcases inParagraph_of_enter (inParagraph_of_leave h) with h | htag
      · exact .inl h
      · exact .inr ⟨element, rfl, hword, htag⟩
    next => exact .inl h
  case h_3 =>
    split at h
    · exact .inl (inParagraph_of_leave h)
    · exact .inl h
  case h_4 => exact .inl h

lemma paragraphHidden_onEvent (h : (flags.onEvent baseRole styles event).inParagraph = true) :
    (flags.onEvent baseRole styles event).paragraphHidden = true ↔
      (∃ element, event.element = some element ∧ isWordprocessing element.nameSpace = true ∧
        hidesParagraph styles element = true) ∨
      flags.paragraphHidden = true ∧ ¬ ∃ element, event.element = some element ∧
        isWordprocessing element.nameSpace = true ∧ (element.tag = .p ∨ element.tag = .pStyle) := by
  cases event with
  | start element =>
    by_cases hword : isWordprocessing element.nameSpace = true
    · simp only [onEvent, hword, if_true] at h ⊢
      simp [paragraphHidden_enter element h, XmlEvent.element, XmlElement.tag, wordTag, hword]
    · simp [onEvent, hword, XmlEvent.element]
  | empty element =>
    by_cases hword : isWordprocessing element.nameSpace = true
    · simp only [onEvent, hword, if_true] at h ⊢
      simp [paragraphHidden_enter element (inParagraph_of_leave h), paragraphHidden_leave,
        XmlEvent.element, XmlElement.tag, wordTag, hword]
    · simp [onEvent, hword, XmlEvent.element]
  | stop nameSpace localName =>
    by_cases hword : isWordprocessing nameSpace = true
    · simp [onEvent, hword, paragraphHidden_leave, XmlEvent.element]
    · simp [onEvent, hword, XmlEvent.element]
  | text text => simp [onEvent, XmlEvent.element]

/-- The role a text element starts in. -/
def startRole (baseRole : ContentRole) (flags : Flags) (tag : StoryTag) : ContentRole :=
  if tag = .t then flags.activeRole baseRole else .latent

lemma textRole_onEvent (baseRole : ContentRole) (styles : Styles) (flags : Flags)
    (event : XmlEvent) :
    (∃ element, event = .start element ∧ isText element.tag = true ∧
        (flags.onEvent baseRole styles event).textRole = some (flags.startRole baseRole element.tag)) ∨
      (isText event.tag = true ∧ (∀ element, event ≠ .start element) ∧
        (flags.onEvent baseRole styles event).textRole = none) ∨
      (isText event.tag = false ∧
        (flags.onEvent baseRole styles event).textRole = flags.textRole) := by
  cases event with
  | start element =>
    by_cases hword : isWordprocessing element.nameSpace = true
    · cases htag : storyTag element.localName <;>
        simp [onEvent, hword, enter, htag, isText, XmlEvent.tag, XmlElement.tag, wordTag, startRole]
    · simp [onEvent, hword, isText, XmlEvent.tag, XmlElement.tag, wordTag]
  | empty element =>
    by_cases hword : isWordprocessing element.nameSpace = true
    · cases htag : storyTag element.localName <;>
        simp [onEvent, hword, enter, leave, htag, isText, XmlEvent.tag, XmlElement.tag, wordTag]
    · simp [onEvent, hword, isText, XmlEvent.tag, XmlElement.tag, wordTag]
  | stop nameSpace localName =>
    by_cases hword : isWordprocessing nameSpace = true
    · cases htag : storyTag localName <;>
        simp [onEvent, hword, leave, htag, isText, XmlEvent.tag, wordTag]
    · simp [onEvent, hword, isText, XmlEvent.tag, wordTag]
  | text text => simp [onEvent, isText, XmlEvent.tag]

/-- The counted flags agree with the open elements. -/
structure Counts (flags : Flags) (stack : List (ℕ × XmlElement)) : Prop where
  depth : flags.latentDepth = stack.countP (isDeletion ·.2.tag)
  paragraph : stack.countP (·.2.tag = .p) = if flags.inParagraph then 1 else 0

lemma Counts.enter (h : Counts flags stack) {position : ℕ}
    (hword : isWordprocessing element.nameSpace = true)
    (hclosed : storyTag element.localName = .p → flags.inParagraph = false) :
    Counts (flags.enter baseRole styles element) ((position, element) :: stack) := by
  have htag' : element.tag = storyTag element.localName := by rw [XmlElement.tag, wordTag, if_pos hword]
  have hdepth := h.depth
  have hparagraph := h.paragraph
  cases htag : storyTag element.localName <;>
    constructor <;> simp_all [Flags.enter, isDeletion, -countP_eq_zero]

lemma Counts.leave (h : Counts flags (opened :: stack))
    (hopened : opened.2.tag = storyTag localName) : Counts (flags.leave localName) stack := by
  have hdepth := h.depth
  have hparagraph := h.paragraph
  cases htag : storyTag localName
  case p =>
    rw [countP_cons_of_pos (by simp [hopened, htag])] at hparagraph
    constructor
    · simpa [Flags.leave, htag, isDeletion, hopened] using hdepth
    · show stack.countP (·.2.tag = .p) = if (flags.leave localName).inParagraph then 1 else 0
      split at hparagraph <;> simp [Flags.leave, htag, -countP_eq_zero] <;> omega
  all_goals
    constructor <;> simp_all [Flags.leave, isDeletion]

lemma counts_other (hopened : opened.2.tag = .other) :
    Counts flags (opened :: stack) ↔ Counts flags stack := by
  constructor
  · intro h
    exact ⟨by simpa [hopened, isDeletion, countP_cons] using h.depth,
      by simpa [hopened, countP_cons] using h.paragraph⟩
  · intro h
    exact ⟨by simpa [hopened, isDeletion, countP_cons] using h.depth,
      by simpa [hopened, countP_cons] using h.paragraph⟩

lemma Counts.onEvent {position : ℕ} (h : Counts flags stack)
    (hnest : nest stack (event, position) = some stack')
    (hclosed : ∀ element, event.element = some element → isWordprocessing element.nameSpace →
      storyTag element.localName = .p → flags.inParagraph = false) :
    Counts (flags.onEvent baseRole styles event) stack' := by
  cases event with
  | start element =>
    cases hnest
    by_cases hword : isWordprocessing element.nameSpace = true
    · simp only [Flags.onEvent, hword, if_true]
      exact h.enter hword (hclosed element rfl hword)
    · simp only [Flags.onEvent, hword]
      exact (counts_other (by simp [XmlElement.tag, wordTag, hword])).mpr h
  | empty element =>
    cases hnest
    by_cases hword : isWordprocessing element.nameSpace = true
    · simp only [Flags.onEvent, hword, if_true]
      have hentered : Counts (flags.enter baseRole styles element) ((position, element) :: stack) :=
        h.enter hword (hclosed element rfl hword)
      exact hentered.leave (by rw [XmlElement.tag, wordTag, if_pos hword])
    · simp only [Flags.onEvent, hword]
      exact h
  | stop nameSpace localName =>
    obtain ⟨opened, rfl, hopened⟩ := nest_stop hnest
    by_cases hword : isWordprocessing nameSpace = true
    · simp only [Flags.onEvent, hword, if_true]
      exact h.leave (by rw [hopened, wordTag, if_pos hword])
    · simp only [Flags.onEvent, hword]
      exact (counts_other (by simp [hopened, wordTag, hword])).mp h
  | text text =>
    cases hnest
    exact h

end Flags

/-! ## §6 The flags along a part -/

section

variable {events} {styles} {baseRole : ContentRole} {position : ℕ} {event : XmlEvent} {flags : Flags}

/-- What the flags are, in terms of the events so far. The paragraph's flag means something as long
as a paragraph is open, and so does the role of a text element in a paragraph. -/
structure History (events : List XmlEvent) (styles : Styles) (baseRole : ContentRole)
    (flags : Flags) (position : ℕ) : Prop where
  counts : flags.Counts (openAt events position)
  run : flags.runHidden = true ↔ Since (RunMark events styles) (RunTag events) position
  style : flags.inParagraph = true →
    (flags.paragraphHidden = true ↔ Since (HiddenStyle events styles) (StyleReset events) position)
  text : flags.textRole = none ∧ ¬ Since (TextStart events) (TextTag events) position ∨
    ∃ role, flags.textRole = some role ∧
      Since (fun start => TextStart events start ∧
          ((∃ paragraph ∈ openAt events start, paragraph.2.tag = .p) →
            (HidingReaches events styles start → role = .latent) ∧
              (¬ HidingReaches events styles start → role = baseRole)))
        (TextTag events) position

section

variable (hevent : events[position]? = some event)

include hevent

lemma opens_iff :
    Opens events position element ↔
      event.element = some element ∧ isWordprocessing element.nameSpace = true := by
  simp [Opens, hevent]

lemma runMark_iff :
    RunMark events styles position ↔ ∃ element, event.element = some element ∧
      isWordprocessing element.nameSpace = true ∧ hidesRun styles element = true := by
  simp [RunMark, opens_iff hevent, and_assoc]

lemma hiddenStyle_iff :
    HiddenStyle events styles position ↔ ∃ element, event.element = some element ∧
      isWordprocessing element.nameSpace = true ∧ hidesParagraph styles element = true := by
  simp [HiddenStyle, opens_iff hevent, and_assoc]

lemma styleReset_iff :
    StyleReset events position ↔ ∃ element, event.element = some element ∧
      isWordprocessing element.nameSpace = true ∧
        (element.tag = .p ∨ element.tag = .pStyle) := by
  simp [StyleReset, opens_iff hevent, and_assoc]

lemma runTag_iff : RunTag events position ↔ event.tag = .r := by
  simp [RunTag, hevent]

lemma textTag_iff : TextTag events position ↔ isText event.tag = true := by
  simp [TextTag, hevent]

lemma textStart_iff :
    TextStart events position ↔ ∃ element, event = .start element ∧ isText element.tag = true := by
  simp [TextStart, hevent]

end

lemma History.inParagraph (h : History events styles baseRole flags position)
    (hopen : ∃ paragraph ∈ openAt events position, paragraph.2.tag = .p) :
    flags.inParagraph = true := by
  obtain ⟨paragraph, hmem, htag⟩ := hopen
  have hcount := h.counts.paragraph
  by_contra hclosed
  rw [if_neg hclosed, countP_eq_zero] at hcount
  exact hcount paragraph hmem (by simpa using htag)

/-- The role a text element of a paragraph starts in is what reaches its start. -/
theorem History.startRole (h : History events styles baseRole flags position)
    (hstart : events[position]? = some (.start element)) (htext : isText element.tag = true)
    (hopen : ∃ paragraph ∈ openAt events position, paragraph.2.tag = .p) :
    (HidingReaches events styles position → flags.startRole baseRole element.tag = .latent) ∧
      (¬ HidingReaches events styles position →
        flags.startRole baseRole element.tag = baseRole) := by
  have hdepth : flags.latentDepth ≠ 0 ↔
      ∃ opened ∈ openAt events position, isDeletion opened.2.tag = true := by
    rw [h.counts.depth, ← Nat.pos_iff_ne_zero, countP_pos_iff]
  have hreaches : HidingReaches events styles position ↔
      (element.tag = .instrText ∨ element.tag = .delText) ∨
        flags.latentDepth ≠ 0 ∨ flags.runHidden = true ∨ flags.paragraphHidden = true := by
    rw [HidingReaches, hdepth, h.run, h.style (h.inParagraph hopen)]
    simp [hstart]
  rw [hreaches, Flags.startRole, Flags.activeRole]
  by_cases ht : element.tag = .t
  · simp only [ht, if_true, reduceCtorEq, false_or]
    constructor
    · intro hactive
      rw [if_pos hactive]
    · intro hactive
      rw [if_neg hactive]
  · have hlatent : element.tag = .instrText ∨ element.tag = .delText := by
      simpa [isText, ht] using htext
    simp [ht, hlatent]

lemma history_start : History events styles baseRole Flags.start 0 where
  counts := by
    rw [openAt_zero]
    exact ⟨rfl, rfl⟩
  run := by simp [Flags.start, not_since_zero]
  style := by simp [Flags.start]
  text := .inl ⟨rfl, not_since_zero⟩

/-- One event of a nested part keeps the history. -/
theorem history_onEvent (hnested : WellNested events) (hevent : events[position]? = some event)
    (h : History events styles baseRole flags position)
    (hclosed : ∀ element, event.element = some element → isWordprocessing element.nameSpace →
      storyTag element.localName = .p → flags.inParagraph = false) :
    History events styles baseRole (flags.onEvent baseRole styles event) (position + 1) where
  counts := h.counts.onEvent (nest_openAt hnested hevent) hclosed
  run := by
    rw [Flags.runHidden_onEvent, since_succ, runMark_iff hevent, runTag_iff hevent, h.run]
  style := by
    intro hopen
    rw [Flags.paragraphHidden_onEvent hopen, since_succ, hiddenStyle_iff hevent,
      styleReset_iff hevent]
    rcases Flags.inParagraph_of_onEvent hopen with hbefore | ⟨element, helement, hword, htag⟩
    · rw [h.style hbefore]
    · -- a paragraph that starts here ends what was said before
      have hreset : ∃ element, event.element = some element ∧
          isWordprocessing element.nameSpace = true ∧ (element.tag = .p ∨ element.tag = .pStyle) :=
        ⟨element, helement, hword, .inl (by rw [XmlElement.tag, wordTag, if_pos hword, htag])⟩
      simp only [hreset, not_true_eq_false, and_false]
  text := by
    rcases Flags.textRole_onEvent baseRole styles flags event with
      ⟨element, rfl, htext, hrole⟩ | ⟨htext, hstart, hrole⟩ | ⟨htext, hrole⟩
    · right
      refine ⟨_, hrole, since_succ.mpr (.inl ⟨?_, fun hopen => ?_⟩)⟩
      · exact (textStart_iff hevent).mpr ⟨element, rfl, htext⟩
      · exact h.startRole hevent htext hopen
    · left
      refine ⟨hrole, fun hsince => ?_⟩
      rcases since_succ.mp hsince with hmark | ⟨-, hreset⟩
      · obtain ⟨element, rfl, -⟩ := (textStart_iff hevent).mp hmark
        exact hstart element rfl
      · exact hreset ((textTag_iff hevent).mpr htext)
    · have hnoTag : ¬ TextTag events position := by
        rw [textTag_iff hevent, htext]
        exact Bool.false_ne_true
      rw [hrole]
      rcases h.text with ⟨hnone, hsince⟩ | ⟨role, hsome, hsince⟩
      · refine .inl ⟨hnone, fun hnext => ?_⟩
        rcases since_succ.mp hnext with hmark | ⟨hbefore, -⟩
        · obtain ⟨element, rfl, htag⟩ := (textStart_iff hevent).mp hmark
          rw [XmlEvent.tag, htag] at htext
          cases htext
        · exact hsince hbefore
      · exact .inr ⟨role, hsome, since_succ.mpr (.inr ⟨hsince, hnoTag⟩)⟩

variable {mode : ContainerMode} {budget : OutputBudget} {parser : StoryParser}

/-- The history of the flags, after the events of a part up to any position. -/
theorem history_of_run (hnested : WellNested events) {before : List XmlEvent}
    (hinitial : before <+: events)
    (h : before.foldlM (StoryParser.event baseRole styles mode) (.new budget) = .ok parser) :
    History events styles baseRole parser.flags before.length := by
  induction before using reverseRecOn generalizing parser with
  | nil =>
    cases h
    exact history_start
  | append_singleton before event ih =>
    obtain ⟨reached, next, hbefore, hstep, hlast⟩ := foldlM_append_cons_ok _ h
    cases hlast
    have hevent : events[before.length]? = some event := by
      obtain ⟨after, rfl⟩ := hinitial
      simp
    obtain ⟨hflags, hclosed⟩ := StoryParser.flags_of_event hstep
    have hreached := ih ((prefix_append before [event]).trans hinitial) hbefore
    have hnext := history_onEvent hnested hevent hreached hclosed
    rw [hflags, length_append, length_singleton]
    exact ⟨⟨hnext.counts.depth, hnext.counts.paragraph⟩, hnext.run, hnext.style, hnext.text⟩

/-! ## §7 Sections -/

/-- A parser with nothing open holds what it has emitted. -/
theorem held_of_finish {parser' : StoryParser} (h : parser.finish = .ok parser') :
    parser' = parser ∧ ∀ source role,
      parser.held source role = StoryParser.heldIn parser.emitted source role := by
  unfold StoryParser.finish at h
  split at h
  next => cases h
  next hopen =>
    cases h
    simp only [not_or, Bool.not_eq_true, Option.isSome_eq_false_iff, Option.isNone_iff_eq_none]
      at hopen
    refine ⟨rfl, fun source role => ?_⟩
    rw [StoryParser.held, hopen.1, hopen.2.1]
    rfl

lemma heldIn_cons (piece : SemanticSection) (rest : List SemanticSection) (source : ℕ)
    (role : ContentRole) : StoryParser.heldIn (piece :: rest) source role =
      (if piece.role = role then piece.content.sources.count source else 0) +
        StoryParser.heldIn rest source role := by
  simp [StoryParser.heldIn]

/-- A section that names an event is counted. -/
theorem heldIn_pos {sections : List SemanticSection} {source : ℕ} {piece : SemanticSection}
    (hmem : piece ∈ sections) (hsource : source ∈ piece.content.sources) :
    0 < StoryParser.heldIn sections source piece.role := by
  induction sections with
  | nil => cases hmem
  | cons first rest ih =>
    rw [heldIn_cons]
    rcases mem_cons.mp hmem with rfl | hmem
    · have hcount : 0 < piece.content.sources.count source := count_pos_iff.mpr hsource
      rw [if_pos rfl]
      omega
    · have hrest := ih hmem
      omega

/-- What is held once, and in one role, stands in one section. -/
theorem section_of_heldIn {sections : List SemanticSection} {source : ℕ} {role : ContentRole}
    (h : ∀ role', StoryParser.heldIn sections source role' = if role = role' then 1 else 0) :
    ∃ piece, sections.filter (source ∈ ·.content.sources) = [piece] ∧
      piece.content.sources.count source = 1 ∧ piece.role = role := by
  induction sections with
  | nil =>
    have hrole := h role
    rw [if_pos rfl] at hrole
    cases hrole
  | cons first rest ih =>
    have hhead := h first.role
    rw [heldIn_cons, if_pos rfl] at hhead
    by_cases hsource : source ∈ first.content.sources
    · have hcount : 0 < first.content.sources.count source := count_pos_iff.mpr hsource
      have hrole : first.role = role := by
        by_contra hne
        rw [if_neg (Ne.symm hne)] at hhead
        omega
      -- no section after it holds the event in any role
      have hrest : ∀ piece ∈ rest, source ∉ piece.content.sources := by
        intro piece hmem hagain
        have hpos := heldIn_pos hmem hagain
        have hpiece := h piece.role
        rw [heldIn_cons] at hpiece
        by_cases hsame : role = piece.role
        · rw [if_pos hsame, if_pos (hrole.trans hsame)] at hpiece
          omega
        · rw [if_neg hsame] at hpiece
          omega
      refine ⟨first, ?_, ?_, hrole⟩
      · rw [filter_cons_of_pos (by simpa using hsource), filter_eq_nil_iff.mpr]
        intro piece hmem
        simpa using hrest piece hmem
      · rw [if_pos hrole.symm] at hhead
        omega
    · have hcount : first.content.sources.count source = 0 := count_eq_zero_of_not_mem hsource
      rw [filter_cons_of_neg (by simpa using hsource)]
      apply ih
      intro role'
      have hrole' := h role'
      rwa [heldIn_cons, hcount, ite_self, Nat.zero_add] at hrole'


lemma parseEvents_ok (h : StoryParser.parseEvents baseRole styles mode budget events = .ok parser) :
    events.foldlM (StoryParser.event baseRole styles mode) (.new budget) = .ok parser ∧
      ∀ source role,
        parser.held source role = StoryParser.heldIn parser.emitted source role := by
  simp only [StoryParser.parseEvents, bind_ok_iff] at h
  obtain ⟨last, hrun, hfinish⟩ := h
  obtain ⟨rfl, hheld⟩ := held_of_finish hfinish
  exact ⟨hrun, hheld⟩

/-- A text of the story is emitted once, in the role the parser was in when it came, if in any. -/
theorem heldIn_storyText (hnested : WellNested events)
    (h : StoryParser.parseEvents baseRole styles mode budget events = .ok parser)
    (hstory : StoryText events position) :
    ∃ flags, History events styles baseRole flags position ∧ ∀ role,
      StoryParser.heldIn parser.emitted position role =
        if flags.textRole = some role then 1 else 0 := by
  obtain ⟨hrun, hheld⟩ := parseEvents_ok h
  obtain ⟨⟨text, hevent, hblank⟩, element, -, -, paragraph, hparagraph, htag, -⟩ := hstory
  obtain ⟨hlt, hget⟩ := List.getElem?_eq_some_iff.mp hevent
  have hsplit : events = events.take position ++ .text text :: events.drop (position + 1) := by
    rw [← hget, cons_getElem_drop_succ, take_append_drop]
  have hlength : (events.take position).length = position := by
    rw [length_take]
    omega
  have htext : squash text ≠ [] := by
    rw [ne_eq, squash_eq_nil_iff, hblank]
    exact Bool.false_ne_true
  rw [hsplit] at hrun
  obtain ⟨reached, hbefore, hcount⟩ := StoryParser.held_of_run hrun htext
  have hhistory := history_of_run hnested (List.take_prefix position events) hbefore
  rw [hlength] at hhistory hcount
  have hopen : reached.paragraph.isSome = true := hhistory.inParagraph ⟨paragraph, hparagraph, htag⟩
  refine ⟨reached.flags, hhistory, fun role => ?_⟩
  have hrole : reached.flags.textRole = reached.textRole := rfl
  rw [← hheld, hcount, hopen, hrole]
  by_cases hsome : reached.textRole = some role <;> simp [hsome]

/-- The paragraph of a text is open where the text element that is in force started. -/
theorem paragraph_open_of_start (hnested : WellNested events) (hstory : StoryText events position)
    {start : ℕ} (hstart : start < position)
    (hlast : ∀ k, start < k → k < position → ¬ TextTag events k) :
    ∃ paragraph ∈ openAt events start, paragraph.2.tag = .p := by
  obtain ⟨⟨text, hevent, -⟩, element, helement, htext, paragraph, hparagraph, htag, hlt⟩ := hstory
  have hposition : position ≤ events.length := (List.getElem?_eq_some_iff.mp hevent).1.le
  obtain ⟨helementLt, helementStart, -⟩ := mem_openAt hnested hposition helement
  have hle : element.1 ≤ start := by
    by_contra hgt
    apply hlast element.1 (by omega) helementLt
    exact (textTag_iff helementStart).mpr htext
  obtain ⟨-, -, hsince⟩ := mem_openAt hnested hposition hparagraph
  exact ⟨paragraph, hsince start (by omega) (by omega), htag⟩

/-- A part the parser accepts keeps its text, each in one section and in its role, exactly when the
flags of the parser say at every text what the open elements say. -/
theorem textConserved_iff (hbase : baseRole ≠ .latent) (hnested : WellNested events)
    (h : StoryParser.parseEvents baseRole styles mode budget events = .ok parser) :
    TextConserved events styles baseRole parser.emitted ↔ RolesMirrored events styles := by
  constructor
  · intro hconserved position hstory
    obtain ⟨flags, hhistory, hheld⟩ := heldIn_storyText hnested h hstory
    obtain ⟨piece, hfilter, -, hhidden, hvisible⟩ := hconserved.once position hstory
    have hpiece : piece ∈ parser.emitted ∧ position ∈ piece.content.sources := by
      have hmem : piece ∈ parser.emitted.filter (position ∈ ·.content.sources) := by
        rw [hfilter]
        exact mem_singleton_self piece
      simpa using hmem
    have hrole : flags.textRole = some piece.role := by
      by_contra hne
      have hpos := heldIn_pos hpiece.1 hpiece.2
      rw [hheld, if_neg hne] at hpos
      exact Nat.lt_irrefl 0 hpos
    rcases hhistory.text with ⟨hnone, -⟩ | ⟨role, hsome, hsince⟩
    · rw [hnone] at hrole
      cases hrole
    obtain ⟨start, hstart, ⟨htextStart, hreached⟩, hlast⟩ := hsince
    have hopen := paragraph_open_of_start hnested hstory hstart hlast
    obtain ⟨hlatent, hbaseRole⟩ := hreached hopen
    have hsame : role = piece.role := Option.some.inj (hsome.symm.trans hrole)
    subst hsame
    refine ⟨start, hstart, ⟨htextStart, ?_⟩, hlast⟩
    constructor
    · intro hreaches
      by_contra hnot
      exact hbase ((hvisible hnot).symm.trans (hlatent hreaches))
    · intro hhide
      by_contra hnot
      exact hbase ((hbaseRole hnot).symm.trans (hhidden hhide))
  · intro hmirrored
    refine ⟨(StoryParser.sound_of_run (parseEvents_ok h).1).emitted, fun position hstory => ?_⟩
    obtain ⟨flags, hhistory, hheld⟩ := heldIn_storyText hnested h hstory
    have hsince := hmirrored position hstory
    rcases hhistory.text with ⟨-, hnone⟩ | ⟨role, hsome, hrole⟩
    · exact absurd (hsince.mono fun _ _ hmark => hmark.1) hnone
    have htag : ∀ start, TextStart events start → TextTag events start := by
      intro start hstart
      obtain ⟨element, hevent, htext⟩ := hstart
      exact ⟨_, hevent, htext⟩
    -- both speak of the text element that is in force
    obtain ⟨start, hstart, ⟨⟨-, hmirror⟩, -, hreached⟩, hlast⟩ :=
      hsince.and (fun start hmark => htag start hmark.1) (fun start hmark => htag start hmark.1) hrole
    obtain ⟨hlatent, hbaseRole⟩ :=
      hreached (paragraph_open_of_start hnested hstory hstart hlast)
    have honce : ∀ role', StoryParser.heldIn parser.emitted position role' =
        if role = role' then 1 else 0 := by
      intro role'
      simp only [hheld, hsome, Option.some.injEq]
    obtain ⟨piece, hfilter, hcount, hpiece⟩ := section_of_heldIn honce
    refine ⟨piece, hfilter, hcount, fun hhidden => ?_, fun hvisible => ?_⟩
    · rw [hpiece]
      exact hlatent (hmirror.mpr hhidden)
    · rw [hpiece]
      exact hbaseRole fun hreaches => hvisible (hmirror.mp hreaches)

end

/-! ## §8 Plain stories -/

section

variable {events} {styles} {position start : ℕ}

/-- While an element of this name is open, the next tag of the name ends it. -/
def Unnested (events : List XmlEvent) (tag : StoryTag) : Prop :=
  ∀ k event, events[k]? = some event → event.tag = tag →
    ∀ opened ∈ openAt events k, opened.2.tag = tag → opened ∉ openAt events (k + 1)

/-- The layout of most stories: runs and paragraphs do not nest, a text element stands in a run and
holds only text, and the marks of a run and the style of a paragraph come before its texts. -/
structure PlainStory (events : List XmlEvent) (styles : Styles) : Prop where
  runs : Unnested events .r
  paragraphs : Unnested events .p
  texts : ∀ position, ∀ opened ∈ openAt events position, isText opened.2.tag = true →
    ∀ k, opened.1 < k → k < position → ∃ text, events[k]? = some (.text text)
  inRun : ∀ start, TextStart events start → ∃ run ∈ openAt events start, run.2.tag = .r
  marked : ∀ mark start run, RunMark events styles mark → TextStart events start →
    run ∈ openAt events mark → run ∈ openAt events start → run.2.tag = .r → mark < start
  styled : ∀ style start paragraph, StyleMark events style → TextStart events start →
    paragraph ∈ openAt events style → paragraph ∈ openAt events start → paragraph.2.tag = .p →
    style < start

/-- Of the elements of such a name at most one is open. -/
theorem Unnested.eq_of_mem {tag : StoryTag} (h : Unnested events tag) (hnested : WellNested events)
    (hposition : position ≤ events.length) {a b : ℕ × XmlElement} (ha : a ∈ openAt events position)
    (hb : b ∈ openAt events position) (hatag : a.2.tag = tag) (hbtag : b.2.tag = tag) : a = b := by
  have hnot : ∀ {x y : ℕ × XmlElement}, x ∈ openAt events position → y ∈ openAt events position →
      x.2.tag = tag → y.2.tag = tag → ¬ x.1 < y.1 := by
    intro x y hx hy hxtag hytag hlt
    obtain ⟨-, -, hsince⟩ := mem_openAt hnested hposition hx
    obtain ⟨hylt, hevent, -⟩ := mem_openAt hnested hposition hy
    exact h y.1 _ hevent hytag x (hsince y.1 hlt hylt.le) hxtag (hsince _ (by omega) hylt)
  have hle := hnot ha hb hatag hbtag
  have hge := hnot hb ha hbtag hatag
  have heq : a.1 = b.1 := by omega
  have hstarts := (mem_openAt hnested hposition ha).2.1
  rw [heq, (mem_openAt hnested hposition hb).2.1] at hstarts
  exact Prod.ext heq (XmlEvent.start.inj (Option.some.inj hstarts)).symm

section

variable (h : PlainStory events styles)

include h

/-- Inside a text element nothing is open that was not open where it started. -/
theorem PlainStory.openAt_text (hnested : WellNested events) (hposition : position ≤ events.length)
    (hmem : opened ∈ openAt events position) (htext : isText opened.2.tag = true) :
    openAt events position = opened :: openAt events opened.1 := by
  obtain ⟨hlt, hstart, -⟩ := mem_openAt hnested hposition hmem
  have htexts := h.texts position opened hmem htext
  clear hmem hposition
  induction position, hlt using Nat.le_induction with
  | base => exact (Option.some.inj (nest_openAt hnested hstart)).symm
  | succ position hlt ih =>
    obtain ⟨text, hevent⟩ := htexts position hlt (Nat.lt_succ_self _)
    rw [← Option.some.inj (nest_openAt hnested hevent)]
    exact ih fun k hafter hbefore => htexts k hafter (Nat.lt_succ_of_lt hbefore)

/-- The last mark since a run began hides the run. -/
theorem PlainStory.since_runMark_iff (hnested : WellNested events) (hstart : TextStart events start)
    (hlength : start ≤ events.length) {run : ℕ × XmlElement} (hrun : run ∈ openAt events start)
    (htag : run.2.tag = .r) :
    Since (RunMark events styles) (RunTag events) start ↔ RunHidden events styles run := by
  obtain ⟨hlt, hopens, hsince⟩ := mem_openAt hnested hlength hrun
  constructor
  · intro hmarked
    have hunmarked : ¬ RunMark events styles run.1 := by
      rintro ⟨found, hfound, hhides⟩
      obtain ⟨hsame, hword⟩ := (opens_iff hopens).mp hfound
      cases hsame
      rw [XmlElement.tag, wordTag, if_pos hword] at htag
      exact Flags.hidesRun_ne_r hhides htag
    obtain ⟨mark, hbegan, hmark, hhides, -⟩ :=
      hmarked.after hlt ((runTag_iff hopens).mpr htag) hunmarked
    refine ⟨mark, hhides, ?_⟩
    have hopen := hsince mark hbegan hmark.le
    cases hfind : (openAt events mark).find? fun opened => opened.2.tag = .r with
    | none => exact absurd (find?_eq_none.mp hfind run hopen) (by simpa using htag)
    | some found =>
      rw [h.runs.eq_of_mem hnested (hmark.le.trans hlength) (mem_of_find?_eq_some hfind) hopen
        (by simpa using find?_some hfind) htag]
  · intro hhidden
    obtain ⟨mark, hhides, hfind⟩ := hhidden
    have hopen := mem_of_find?_eq_some hfind
    have hmark := h.marked mark start run hhides hstart hopen hrun htag
    have hbegan := (mem_openAt hnested (hmark.le.trans hlength) hopen).1
    refine ⟨mark, hmark, hhides, fun k hafter hbefore htagged => ?_⟩
    obtain ⟨event, hevent, hr⟩ := htagged
    exact h.runs k event hevent hr run (hsince k (hbegan.trans hafter) hbefore.le) htag
      (hsince (k + 1) (by omega) hbefore)

/-- The style given last since a paragraph began hides the paragraph. -/
theorem PlainStory.since_hiddenStyle_iff (hnested : WellNested events)
    (hstart : TextStart events start) (hlength : start ≤ events.length) {paragraph : ℕ × XmlElement}
    (hparagraph : paragraph ∈ openAt events start) (htag : paragraph.2.tag = .p) :
    Since (HiddenStyle events styles) (StyleReset events) start ↔
      ParagraphHidden events styles paragraph := by
  obtain ⟨hlt, hopens, hsince⟩ := mem_openAt hnested hlength hparagraph
  have hstyle : ∀ {k found}, Opens events k found → hidesParagraph styles found = true →
      found.tag = .pStyle := by
    intro k found hfound hhides
    obtain ⟨-, -, -, hword⟩ := hfound
    rw [XmlElement.tag, wordTag, if_pos hword, (of_decide_eq_true hhides).1]
  constructor
  · intro hstyled
    have hreset : StyleReset events paragraph.1 := by
      refine (styleReset_iff hopens).mpr ⟨paragraph.2, rfl, ?_, .inl htag⟩
      by_contra hword
      rw [XmlElement.tag, wordTag, if_neg hword] at htag
      cases htag
    have hunstyled : ¬ HiddenStyle events styles paragraph.1 := by
      rintro ⟨found, hfound, hhides⟩
      have hpStyle := hstyle hfound hhides
      cases ((opens_iff hopens).mp hfound).1
      rw [htag] at hpStyle
      cases hpStyle
    obtain ⟨style, hbegan, hbefore, ⟨found, hfound, hhides⟩, hlast⟩ :=
      hstyled.after hlt hreset hunstyled
    refine ⟨style, found, hfound, hhides, hsince style hbegan hbefore.le, ?_⟩
    intro later hlater hmark hopen
    have hfirst := h.styled later start paragraph hmark hstart hopen hparagraph htag
    obtain ⟨other, hother, hpStyle⟩ := hmark
    exact hlast later hlater hfirst ⟨other, hother, .inr hpStyle⟩
  · intro hhidden
    obtain ⟨style, found, hfound, hhides, hopen, hlast⟩ := hhidden
    have hbefore := h.styled style start paragraph ⟨found, hfound, hstyle hfound hhides⟩ hstart
      hopen hparagraph htag
    have hbegan := (mem_openAt hnested (hbefore.le.trans hlength) hopen).1
    refine ⟨style, hbefore, ⟨found, hfound, hhides⟩, fun k hafter hk hreset => ?_⟩
    have hinside := hsince k (hbegan.trans hafter) hk.le
    obtain ⟨other, hother, hp | hpStyle⟩ := hreset
    · obtain ⟨event, hevent, helement, -⟩ := hother
      have hevents : event.tag = .p := by cases event <;> cases helement <;> exact hp
      exact h.paragraphs k event hevent hevents paragraph hinside htag (hsince (k + 1) (by omega) hk)
    · exact hlast k hafter ⟨other, hother, hpStyle⟩ hinside

/-- In a plain story the flags say what the open elements say. -/
theorem PlainStory.rolesMirrored (hnested : WellNested events) : RolesMirrored events styles := by
  intro position hstory
  obtain ⟨⟨text, htext, -⟩, opened, hopened, hkind, paragraph, hparagraph, hp, hinside⟩ := hstory
  have hposition : position ≤ events.length := (List.getElem?_eq_some_iff.mp htext).1.le
  obtain ⟨hlt, hopens, -⟩ := mem_openAt hnested hposition hopened
  have hstart : TextStart events opened.1 := ⟨opened.2, hopens, hkind⟩
  have hlength : opened.1 ≤ events.length := hlt.le.trans hposition
  refine ⟨opened.1, hlt, ⟨hstart, ?_⟩, fun k hafter hbefore htagged => ?_⟩
  · -- what is open where the element starts is what the flags were told
    have hstack := h.openAt_text hnested hposition hopened hkind
    have hbelow : paragraph ∈ openAt events opened.1 := by
      rw [hstack, mem_cons] at hparagraph
      refine hparagraph.resolve_left fun heq => ?_
      rw [heq] at hinside
      exact Nat.lt_irrefl _ hinside
    obtain ⟨run, hrun, hr⟩ := h.inRun opened.1 hstart
    rw [HidingReaches, h.since_runMark_iff hnested hstart hlength hrun hr,
      h.since_hiddenStyle_iff hnested hstart hlength hbelow hp, Hidden, hstack]
    constructor
    · rintro (⟨element, helement, hlatent⟩ | ⟨element, hmem, hdeletion⟩ | hhidden | hhidden)
      · cases hopens.symm.trans helement
        exact ⟨opened, mem_cons_self, .inr (by tauto)⟩
      · exact ⟨element, mem_cons_of_mem _ hmem, .inl hdeletion⟩
      · exact ⟨run, mem_cons_of_mem _ hrun, .inr (.inr (.inr (.inl ⟨hr, hhidden⟩)))⟩
      · exact ⟨paragraph, mem_cons_of_mem _ hbelow, .inr (.inr (.inr (.inr ⟨hp, hhidden⟩)))⟩
    · rintro ⟨element, hmem, hhides⟩
      rcases mem_cons.mp hmem with rfl | hmem
      · refine .inl ⟨element.2, hopens, ?_⟩
        have htags : element.2.tag = .t ∨ element.2.tag = .instrText ∨ element.2.tag = .delText := by
          simpa [isText] using hkind
        rcases htags with ht | ht | ht <;> simp [ht, isDeletion] at hhides ⊢
      · have hnot : isText element.2.tag = false := by
          by_contra htext
          have hopen : element ∈ openAt events position := hstack ▸ mem_cons_of_mem _ hmem
          obtain ⟨inner, hinner⟩ := h.texts position element hopen (by simpa using htext) opened.1
            (mem_openAt hnested hlength hmem).1 hlt
          rw [hopens] at hinner
          cases hinner
        rcases hhides with hdeletion | ht | ht | ⟨ht, hhidden⟩ | ⟨ht, hhidden⟩
        · exact .inr (.inl ⟨element, hmem, hdeletion⟩)
        · simp [ht, isText] at hnot
        · simp [ht, isText] at hnot
        · rw [h.runs.eq_of_mem hnested hlength hmem hrun ht hr] at hhidden
          exact .inr (.inr (.inl hhidden))
        · rw [h.paragraphs.eq_of_mem hnested hlength hmem hbelow ht hp] at hhidden
          exact .inr (.inr (.inr hhidden))
  · -- a text is no tag
    obtain ⟨event, hevent, htag⟩ := htagged
    obtain ⟨inner, hinner⟩ := h.texts position opened hopened hkind k hafter hbefore
    rw [hevent, Option.some.injEq] at hinner
    rw [hinner] at htag
    cases htag

end

end

/-! ## §9 A hidden run that shows -/

/-- An element of word processing, with content and no attributes. -/
def storyElement (localName : String) (content : List XmlEvent) : List XmlEvent :=
  .start ⟨some "http://purl.oclc.org/ooxml/wordprocessingml/main".toList, localName.toList, []⟩ ::
    content ++ [.stop (some "http://purl.oclc.org/ooxml/wordprocessingml/main".toList)
      localName.toList]

/-- A hidden run that holds a ruby, whose base is a run of its own. -/
def rubyStory : List XmlEvent :=
  storyElement "document" <| storyElement "p" <| storyElement "r" <|
    [leafElement "http://purl.oclc.org/ooxml/wordprocessingml/main".toList "vanish" []] ++
      storyElement "ruby" (storyElement "r" (storyElement "t" [.text "base".toList]))

def noStyles : Styles := ⟨[], []⟩

lemma rubyStory_emitted : ∃ parser,
    StoryParser.parseEvents .primary noStyles .none .empty rubyStory = .ok parser ∧
      parser.emitted = [⟨[], ⟨"base".toList, [7]⟩, .primary⟩] := by
  have hemitted : ((StoryParser.parseEvents .primary noStyles .none .empty rubyStory).toOption.map
      StoryParser.emitted) = some [⟨[], ⟨"base".toList, [7]⟩, .primary⟩] := by
    decide +kernel
  cases hparse : StoryParser.parseEvents .primary noStyles .none .empty rubyStory with
  | error error =>
    rw [hparse] at hemitted
    cases hemitted
  | ok parser =>
    rw [hparse] at hemitted
    exact ⟨parser, rfl, Option.some.inj hemitted⟩

lemma rubyStory_nested : WellNested rubyStory := by
  unfold WellNested
  decide +kernel

lemma rubyStory_text : StoryText rubyStory 7 := by
  refine ⟨⟨"base".toList, by decide +kernel, by decide⟩, ?_⟩
  decide +kernel

lemma rubyStory_hidden : Hidden rubyStory noStyles 7 := by
  have hmark : RunMark rubyStory noStyles 3 := by
    refine ⟨⟨some "http://purl.oclc.org/ooxml/wordprocessingml/main".toList, "vanish".toList, []⟩,
      ⟨_, getElem?_eq_getElem (by decide), ?_⟩, by decide⟩
    decide +kernel
  have hrun : ((openAt rubyStory 3).find? (fun element => element.2.tag = .r)).any
      (fun run => run ∈ openAt rubyStory 7 ∧ run.2.tag = .r) = true := by
    decide +kernel
  obtain ⟨run, hfound, hopen⟩ := Option.any_eq_true _ _ |>.mp hrun
  obtain ⟨hmem, htag⟩ := of_decide_eq_true hopen
  exact ⟨run, hmem, .inr (.inr (.inr (.inl ⟨htag, 3, hmark, hfound⟩)))⟩

/-- The ruby's base stands in a hidden run, and is emitted as primary text. -/
theorem rubyStory_exposes : ∃ parser,
    StoryParser.parseEvents .primary noStyles .none .empty rubyStory = .ok parser ∧
      WellNested rubyStory ∧ ¬ TextConserved rubyStory noStyles .primary parser.emitted := by
  obtain ⟨parser, hparse, hsections⟩ := rubyStory_emitted
  refine ⟨parser, hparse, rubyStory_nested, fun hconserved => ?_⟩
  obtain ⟨piece, hfilter, -, hlatent, -⟩ := hconserved.once 7 rubyStory_text
  rw [hsections] at hfilter
  have hpiece : piece.role = .primary := by
    have hmem : piece ∈ [piece] := mem_singleton_self piece
    rw [← hfilter] at hmem
    rw [mem_singleton.mp (mem_of_mem_filter hmem)]
  rw [hpiece] at hlatent
  cases hlatent rubyStory_hidden

/-- The condition, on the same story. -/
theorem rubyStory_conserved_iff : ∃ parser,
    StoryParser.parseEvents .primary noStyles .none .empty rubyStory = .ok parser ∧
      (TextConserved rubyStory noStyles .primary parser.emitted ↔
        RolesMirrored rubyStory noStyles) := by
  obtain ⟨parser, hparse, -⟩ := rubyStory_emitted
  exact ⟨parser, hparse, textConserved_iff (by decide) rubyStory_nested hparse⟩

end Kwiry.Docx
