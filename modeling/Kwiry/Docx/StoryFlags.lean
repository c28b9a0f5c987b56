import Kwiry.Docx.Story

/-!
# The Flags of the Story Parser

The part of the parser's state that decides roles, and what each event does to it. The flags are a
small machine of their own: an event that the parser accepts changes them by the event's name
alone, whatever sections, rows and budgets do meanwhile.
-/

namespace Kwiry.Docx

open Foundations

/-- What the parser keeps for the roles of texts. -/
structure Flags where
  position : ℕ
  inParagraph : Bool
  latentDepth : ℕ
  (runHidden paragraphHidden : Bool)
  textRole : Option ContentRole

/-- An element that hides the run it stands in. -/
def hidesRun (styles : Styles) (element : XmlElement) : Bool :=
  match storyTag element.localName with
  | .rStyle => (attributeLocal element "val").any (· ∈ styles.hidden)
  | .vanish | .webHidden => onOffEnabled element
  | _ => false

/-- An element that gives its paragraph a hidden style. -/
def hidesParagraph (styles : Styles) (element : XmlElement) : Bool :=
  storyTag element.localName = .pStyle ∧ (attributeLocal element "val").any (· ∈ styles.hidden)

namespace Flags

def start : Flags := ⟨0, false, 0, false, false, none⟩

variable (baseRole : ContentRole) (styles : Styles)

def activeRole (flags : Flags) : ContentRole :=
  if flags.latentDepth ≠ 0 ∨ flags.runHidden ∨ flags.paragraphHidden then .latent else baseRole

def enter (flags : Flags) (element : XmlElement) : Flags :=
  match storyTag element.localName with
  | .p => { flags with inParagraph := true, paragraphHidden := false }
  | .pStyle => { flags with
      paragraphHidden :=
        if flags.inParagraph then hidesParagraph styles element else flags.paragraphHidden }
  | .rStyle | .vanish | .webHidden =>
    { flags with runHidden := flags.runHidden || hidesRun styles element }
  | .r => { flags with runHidden := false }
  | .del | .moveFrom => { flags with latentDepth := flags.latentDepth + 1 }
  | .t => { flags with textRole := some (flags.activeRole baseRole) }
  | .instrText | .delText => { flags with textRole := some .latent }
  | _ => flags

def leave (flags : Flags) (localName : Text) : Flags :=
  match storyTag localName with
  | .p => { flags with inParagraph := false }
  | .r => { flags with runHidden := false }
  | .del | .moveFrom => { flags with latentDepth := flags.latentDepth - 1 }
  | .t | .instrText | .delText => { flags with textRole := none }
  | _ => flags

def onEvent (flags : Flags) : XmlEvent → Flags
  | .start element =>
    if isWordprocessing element.nameSpace then flags.enter baseRole styles element else flags
  | .empty element =>
    if isWordprocessing element.nameSpace then
      (flags.enter baseRole styles element).leave element.localName
    else flags
  | .stop nameSpace localName => if isWordprocessing nameSpace then flags.leave localName else flags
  | .text _ => flags

variable {baseRole : ContentRole} {styles : Styles}

@[simp] lemma position_enter (flags : Flags) (element : XmlElement) :
    (flags.enter baseRole styles element).position = flags.position := by
  unfold enter
  split <;> rfl

@[simp] lemma position_leave (flags : Flags) (localName : Text) :
    (flags.leave localName).position = flags.position := by
  unfold leave
  split <;> rfl

@[simp] lemma position_onEvent (flags : Flags) (event : XmlEvent) :
    (flags.onEvent baseRole styles event).position = flags.position := by
  unfold onEvent
  split
  · split <;> simp
  · split <;> simp
  · split <;> simp
  · rfl

end Flags

namespace StoryParser

def flags (parser : StoryParser) : Flags where
  position := parser.position
  inParagraph := parser.paragraph.isSome
  latentDepth := parser.latentDepth
  runHidden := parser.runHidden
  paragraphHidden := parser.paragraphHidden
  textRole := parser.textRole

variable {baseRole : ContentRole} {styles : Styles} {mode : ContainerMode}
  {parser parser' : StoryParser}

lemma flags_of_emit {content : Passage} {role : ContentRole}
    (h : parser.emit content role = .ok parser') : parser'.flags = parser.flags := by
  simp only [emit, bind_ok_iff] at h
  obtain ⟨⟨budget, pushed⟩, -, h⟩ := h
  dsimp only at h
  split at h
  all_goals
    cases h
    rfl

lemma flags_of_emitAll {content : ContentRole → Passage} (h : parser.emitAll content = .ok parser') :
    parser'.flags = parser.flags := by
  apply foldlM_induction _ (fun next : StoryParser => next.flags = parser.flags) _ rfl h
  intro next next' role _ hnext hemit
  rw [flags_of_emit hemit, hnext]

lemma flags_of_finishParagraph (h : parser.finishParagraph baseRole styles = .ok parser') :
    parser.paragraph.isSome ∧ parser'.flags = { parser.flags with inParagraph := false } := by
  unfold finishParagraph at h
  split at h
  next => cases h
  next paragraph hparagraph =>
    have hheading : ({ parser with paragraph := none }.enterHeading baseRole styles paragraph).flags =
        { parser.flags with inParagraph := false } := by
      unfold enterHeading
      split
      · rfl
      · dsimp only
        split <;> rfl
    refine ⟨by rw [hparagraph]; rfl, ?_⟩
    rw [← hheading]
    dsimp only at h
    split at h
    · split at h
      · cases h
      · simp only [bind_ok_iff] at h
        obtain ⟨row, -, h⟩ := h
        cases h
        rfl
    · exact flags_of_emitAll h

lemma flags_of_finishRow (h : parser.finishRow = .ok parser') : parser'.flags = parser.flags := by
  unfold finishRow at h
  split at h
  · cases h
  · simp only [bind_unit_ok_iff] at h
    rw [flags_of_emitAll h.2]
    rfl

variable {element : XmlElement}

/-- Two parsers with the same flags and passages. -/
structure SameText (parser parser' : StoryParser) : Prop where
  flags : parser'.flags = parser.flags
  emitted : parser'.emitted = parser.emitted
  row : parser'.row = parser.row
  paragraph : parser'.paragraph = parser.paragraph

lemma sameText_of_enterContainer (h : parser.enterContainer mode element = .ok parser') :
    SameText parser parser' := by
  unfold enterContainer at h
  split at h
  · simp only [bind_unit_ok_iff] at h
    obtain ⟨-, h⟩ := h
    split at h
    · cases h
    · simp only [bind_unit_ok_iff] at h
      obtain ⟨-, h⟩ := h
      cases h
      exact ⟨rfl, rfl, rfl, rfl⟩
  · cases h
    exact ⟨rfl, rfl, rfl, rfl⟩

variable {localName : Text}

lemma sameText_of_leaveContainer (h : parser.leaveContainer mode localName = .ok parser') :
    SameText parser parser' := by
  unfold leaveContainer at h
  split at h
  · simp only [bind_unit_ok_iff] at h
    obtain ⟨-, h⟩ := h
    cases h
    exact ⟨rfl, rfl, rfl, rfl⟩
  · cases h
    exact ⟨rfl, rfl, rfl, rfl⟩

lemma sameText_of_reference {kind : HeaderFooterKind}
    (h : parser.reference kind element = .ok parser') : SameText parser parser' := by
  unfold reference at h
  split at h
  · cases h
  · simp only [bind_unit_ok_iff] at h
    obtain ⟨-, h⟩ := h
    cases h
    exact ⟨rfl, rfl, rfl, rfl⟩

lemma checkedSucc_ok {depth depth' : ℕ} (h : checkedSucc depth = .ok depth') :
    depth' = depth + 1 := by
  unfold checkedSucc at h
  split at h
  · cases h
    rfl
  · cases h

lemma checkedPred_ok {depth depth' : ℕ} (h : checkedPred depth = .ok depth') :
    depth ≠ 0 ∧ depth' = depth - 1 := by
  unfold checkedPred at h
  split at h
  · cases h
  next hne =>
    cases h
    exact ⟨hne, rfl⟩

/-- An element that opens moves the flags, and a paragraph opens in no other. -/
theorem flags_of_enter (h : parser.enter baseRole styles element = .ok parser') :
    parser'.flags = parser.flags.enter baseRole styles element ∧
      (storyTag element.localName = .p → parser.paragraph = none) := by
  unfold enter at h
  unfold Flags.enter
  split at h
  case h_1 htag =>
    simp only [bind_unit_ok_iff, rejectIf_ok] at h
    obtain ⟨hnone, h⟩ := h
    cases h
    exact ⟨by rw [htag]; rfl, fun _ => by simpa using hnone⟩
  case h_2 htag =>
    rw [htag]
    split at h
    next hnone =>
      cases h
      refine ⟨?_, by simp⟩
      simp [flags, hnone]
    next paragraph hparagraph =>
      cases h
      refine ⟨?_, by simp⟩
      simp [flags, hparagraph, hidesParagraph, htag]
  case h_3 htag =>
    cases h
    rw [htag]
    refine ⟨?_, by simp⟩
    simp [flags, hidesRun, htag]
  case h_4 htag =>
    cases h
    rw [htag]
    refine ⟨?_, by simp⟩
    simp [flags]
  case h_6 htag | h_7 htag =>
    cases h
    rw [htag]
    refine ⟨?_, by simp⟩
    simp [flags, hidesRun, htag]
  case h_8 htag | h_9 htag =>
    simp only [bind_ok_iff] at h
    obtain ⟨depth, hdepth, h⟩ := h
    cases h
    rw [htag, checkedSucc_ok hdepth]
    exact ⟨rfl, by simp⟩
  case h_5 htag | h_10 htag | h_11 htag | h_12 htag | h_22 htag | h_23 htag =>
    cases h
    rw [htag]
    exact ⟨rfl, by simp⟩
  case h_24 htag =>
    cases h
    rw [htag]
    exact ⟨rfl, by simp⟩
  case h_13 htag | h_14 htag | h_15 htag =>
    cases h
    rw [htag]
    refine ⟨?_, by simp⟩
    simp [flags, appendText]
  case h_16 htag =>
    rw [htag]
    refine ⟨?_, by simp⟩
    split at h
    · cases h
      simp [flags, appendText]
    · cases h
      rfl
  case h_17 htag =>
    simp only [bind_ok_iff] at h
    obtain ⟨depth, -, h⟩ := h
    cases h
    rw [htag]
    exact ⟨rfl, by simp⟩
  case h_18 htag =>
    rw [htag]
    refine ⟨?_, by simp⟩
    split at h
    · simp only [bind_unit_ok_iff] at h
      obtain ⟨-, h⟩ := h
      cases h
      rfl
    · cases h
      rfl
  case h_19 htag =>
    rw [htag]
    refine ⟨?_, by simp⟩
    split at h
    · split at h
      · cases h
      · simp only [bind_ok_iff] at h
        obtain ⟨row, -, h⟩ := h
        cases h
        rfl
    · cases h
      rfl
  case h_20 htag | h_21 htag =>
    rw [htag]
    exact ⟨(sameText_of_reference h).flags, by simp⟩

/-- An element that closes moves the flags, a paragraph when one is open, and a deletion when some
are. -/
theorem flags_of_leave (h : parser.leave baseRole styles localName = .ok parser') :
    parser'.flags = parser.flags.leave localName ∧
      (storyTag localName = .p → parser.paragraph.isSome) := by
  unfold leave at h
  unfold Flags.leave
  split at h
  case h_1 htag =>
    obtain ⟨hsome, hflags⟩ := flags_of_finishParagraph h
    rw [htag]
    exact ⟨hflags, fun _ => hsome⟩
  case h_3 htag | h_4 htag =>
    simp only [bind_ok_iff] at h
    obtain ⟨depth, hdepth, h⟩ := h
    cases h
    rw [htag, (checkedPred_ok hdepth).2]
    exact ⟨rfl, by simp⟩
  case h_2 htag | h_5 htag | h_6 htag | h_7 htag =>
    cases h
    rw [htag]
    exact ⟨rfl, by simp⟩
  case h_8 htag =>
    rw [htag]
    refine ⟨?_, by simp⟩
    split at h
    · split at h
      · cases h
      · simp only [bind_ok_iff] at h
        obtain ⟨row, -, h⟩ := h
        cases h
        rfl
    · cases h
      rfl
  case h_9 htag =>
    rw [htag]
    refine ⟨?_, by simp⟩
    split at h
    · exact flags_of_finishRow h
    · cases h
      rfl
  case h_10 htag =>
    simp only [bind_ok_iff] at h
    obtain ⟨depth, -, h⟩ := h
    cases h
    rw [htag]
    exact ⟨rfl, by simp⟩
  case h_11 =>
    cases h
    refine ⟨?_, fun htag => ?_⟩
    · split <;> simp_all
    · simp_all

lemma flags_of_stop {nameSpace : Option Text}
    (h : parser.stop baseRole styles mode nameSpace localName = .ok parser') :
    parser'.flags =
      if isWordprocessing nameSpace then parser.flags.leave localName else parser.flags := by
  unfold stop at h
  split at h
  next hname =>
    simp only [bind_ok_iff] at h
    obtain ⟨left, hleave, h⟩ := h
    rw [if_pos hname, (sameText_of_leaveContainer h).flags, (flags_of_leave hleave).1]
  next hname =>
    cases h
    rw [if_neg hname]

lemma flags_of_start {empty : Bool}
    (h : parser.start baseRole styles mode element empty = .ok parser') :
    parser'.flags = parser.flags.onEvent baseRole styles
        (if empty then .empty element else .start element) ∧
      (isWordprocessing element.nameSpace → storyTag element.localName = .p →
        parser.flags.inParagraph = false) := by
  unfold start at h
  split at h
  next hname =>
    simp only [bind_ok_iff] at h
    obtain ⟨contained, hcontained, entered, hentered, h⟩ := h
    obtain ⟨hflags, hnone⟩ := flags_of_enter hentered
    rw [(sameText_of_enterContainer hcontained).flags] at hflags
    refine ⟨?_, fun _ htag => ?_⟩
    · split at h
      next hempty =>
        rw [flags_of_stop h, hflags, if_pos hempty, if_pos hname]
        simp only [Flags.onEvent, if_pos hname]
      next hempty =>
        cases h
        rw [hflags, if_neg hempty]
        simp only [Flags.onEvent, if_pos hname]
    · have hclosed : contained.flags.inParagraph = false := by
        simp [flags, hnone htag]
      rwa [(sameText_of_enterContainer hcontained).flags] at hclosed
  next hname =>
    cases h
    refine ⟨?_, fun hword => absurd hword hname⟩
    split <;> simp only [Flags.onEvent, if_neg hname]

lemma flags_of_onEvent {event : XmlEvent}
    (h : parser.onEvent baseRole styles mode event = .ok parser') :
    parser'.flags = parser.flags.onEvent baseRole styles event ∧
      ∀ element, event.element = some element → isWordprocessing element.nameSpace →
        storyTag element.localName = .p → parser.flags.inParagraph = false := by
  cases event with
  | start element | empty element =>
    obtain ⟨hflags, hclosed⟩ := flags_of_start h
    refine ⟨hflags, ?_⟩
    intro other hother
    cases hother
    exact hclosed
  | stop nameSpace localName => exact ⟨flags_of_stop h, by simp [XmlEvent.element]⟩
  | text text =>
    cases h
    refine ⟨?_, by simp [XmlEvent.element]⟩
    split
    · simp [flags, appendText, Flags.onEvent]
    · rfl

lemma flags_of_event {event : XmlEvent}
    (h : parser.event baseRole styles mode event = .ok parser') :
    parser'.flags = { parser.flags.onEvent baseRole styles event with
        position := parser.flags.position + 1 } ∧
      ∀ element, event.element = some element → isWordprocessing element.nameSpace →
        storyTag element.localName = .p → parser.flags.inParagraph = false := by
  simp only [StoryParser.event, bind_ok_iff] at h
  obtain ⟨next, hnext, h⟩ := h
  cases h
  obtain ⟨hflags, hclosed⟩ := flags_of_onEvent hnext
  refine ⟨?_, hclosed⟩
  have hposition : next.position = parser.flags.position := by
    have hkeeps : (parser.flags.onEvent baseRole styles event).position = _ :=
      Flags.position_onEvent parser.flags event
    rw [← hkeeps, ← hflags]
    rfl
  rw [← hflags, ← hposition]
  rfl

end StoryParser

end Kwiry.Docx
