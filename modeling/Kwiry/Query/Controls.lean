import Kwiry.Query.Preparation

/-!
# The Grammar of Field Controls

What `parse_field_controls` accepts: controls `in:field` and `>field` in any order, one of each at
most, every control followed by whitespace, and behind them a text that starts with no control and
has no explicit syntax. A word that starts with `in:`, and one that starts with `>` and goes on, is
a control even where it names no field; then the query is an error.
-/

namespace Kwiry

open Foundations List

/-! ## §1 Controls -/

variable {lead query rest t token value : Text}

namespace QueryPublicField

/-- The word for a field. -/
def word : QueryPublicField → Text
  | .name => "name".toList
  | .filename => "filename".toList
  | .title => "title".toList
  | .alias => "alias".toList
  | .heading => "heading".toList
  | .tag => "tag".toList
  | .body => "body".toList

lemma parse_word (field : QueryPublicField) : parse field.word = some field := by
  cases field <;> decide +kernel

lemma eq_word_of_parse {field : QueryPublicField} (h : parse value = some field) :
    value = field.word := by
  unfold parse at h
  split_ifs at h with h1 h2 h3 h4 h5 h6 h7 <;> cases h <;> assumption

end QueryPublicField

inductive FieldControl where
  | scope (field : QueryPublicField)
  | emphasis (field : QueryPublicField)

namespace FieldControl

def text : FieldControl → Text
  | .scope field => "in:".toList ++ field.word
  | .emphasis field => ">".toList ++ field.word

def scope? : FieldControl → Option QueryPublicField
  | .scope field => some field
  | .emphasis _ => none

def emphasis? : FieldControl → Option QueryPublicField
  | .scope _ => none
  | .emphasis field => some field

lemma text_word (control : FieldControl) :
    control.text ≠ [] ∧ control.text.all (!isWhitespace ·) = true := by
  cases control with
  | scope field | emphasis field => cases field <;> decide +kernel

end FieldControl

/-- Controls, each with the whitespace behind it. -/
def writtenControls (controls : List (FieldControl × Text)) : Text :=
  controls.flatMap fun entry => entry.1.text ++ entry.2

/-- Whether the first word of a text is a control, of a known field or not. -/
def StartsControl (t : Text) : Prop :=
  "in:".toList <+: t.takeWhile (!isWhitespace ·) ∨
    ">".toList <+: t.takeWhile (!isWhitespace ·) ∧ t.takeWhile (!isWhitespace ·) ≠ ">".toList

/-- A query that is controls and a text. -/
structure ControlGrammar (query : Text) (result : ParsedFieldControls) : Prop where
  written : ∃ (lead : Text) (controls : List (FieldControl × Text)),
    query = lead ++ writtenControls controls ++ result.queryText ∧
    lead.all isWhitespace = true ∧ controls ≠ [] ∧
    (∀ entry ∈ controls, entry.2 ≠ [] ∧ entry.2.all isWhitespace = true) ∧
    controls.filterMap (fun entry => entry.1.scope?) = result.scope.toList ∧
    controls.filterMap (fun entry => entry.1.emphasis?) = result.emphasis.toList
  text : ∃ c ∈ result.queryText.head?, isWhitespace c = false
  plain : ¬ StartsControl result.queryText
  prose : hasExplicitSyntax result.queryText = false
  contained : ∀ scope ∈ result.scope, ∀ emphasis ∈ result.emphasis, scope.contains emphasis = true

/-! ## §2 One round -/

lemma stripText_eq_some : stripText lead token = some value ↔ token = lead ++ value := by
  unfold stripText
  split
  · next hleading =>
    obtain ⟨rest, rfl⟩ := isPrefixOf_iff_prefix.mp hleading
    simp
  · next hnot =>
    simp only [reduceCtorEq, false_iff]
    rintro rfl
    exact hnot (List.isPrefixOf_iff_prefix.mpr (prefix_append _ _))

lemma stripText_eq_none : stripText lead token = none ↔ ¬ lead <+: token := by
  unfold stripText
  split
  · next hleading => simpa using isPrefixOf_iff_prefix.mp hleading
  · next hnot => simpa using fun h => hnot (List.isPrefixOf_iff_prefix.mpr h)

variable {next scan : ControlScan}

lemma readControl_none_iff : readControl scan = .ok none ↔ ¬ StartsControl scan.rest := by
  unfold StartsControl
  generalize htoken : scan.rest.takeWhile (!isWhitespace ·) = token
  simp only [readControl, htoken]
  cases hscope : stripText "in:".toList token with
  | some value =>
    have hleading : "in:".toList <+: token := ⟨value, (stripText_eq_some.mp hscope).symm⟩
    simp only [hleading, true_or, not_true_eq_false, iff_false]
    split
    · simp
    · split <;> simp
  | none =>
    have hnot := stripText_eq_none.mp hscope
    cases hmark : stripText ">".toList token with
    | none =>
      have hnot' := stripText_eq_none.mp hmark
      simp only [true_iff]
      rintro (hleading | ⟨hleading, -⟩)
      · exact hnot hleading
      · exact hnot' hleading
    | some value =>
      have htext := stripText_eq_some.mp hmark
      cases value with
      | nil =>
        -- a bare mark is text
        simp only [true_iff]
        rintro (hleading | ⟨-, hne⟩)
        · exact hnot hleading
        · exact hne htext
      | cons c value =>
        have hcontrol : ">".toList <+: token ∧ token ≠ ">".toList := by
          refine ⟨⟨c :: value, htext.symm⟩, fun hbare => ?_⟩
          rw [htext] at hbare
          simpa using congrArg length hbare
        have hstarts := Or.inr (a := "in:".toList <+: token) hcontrol
        simp only [hstarts, not_true_eq_false, iff_false]
        split
        · simp
        · split <;> simp

/-- A scan that has read a control in front of `rest`, unless it had one of its kind. -/
def ControlScan.take (scan : ControlScan) (control : FieldControl) (rest : Text) :
    Option ControlScan :=
  match control with
  | .scope field =>
    if scan.scope.isSome then none else some { scan with rest, scope := some field, parsedAny := true }
  | .emphasis field =>
    if scan.emphasis.isSome then none
    else some { scan with rest, emphasis := some field, parsedAny := true }

variable {control : FieldControl}

/-- A round over a control that is written. -/
theorem readControl_written {gap : Text} (hscan : scan.rest = control.text ++ gap ++ rest)
    (hgap : gap ≠ [] ∧ gap.all isWhitespace = true)
    (hrest : ∀ c ∈ rest.head?, isWhitespace c = false)
    (hnext : scan.take control rest = some next) : readControl scan = .ok (some next) := by
  obtain ⟨-, hword⟩ := control.text_word
  obtain ⟨d, gap, rfl⟩ := exists_cons_of_ne_nil hgap.1
  have hspace := all_eq_true.mp hgap.2
  have htoken : scan.rest.takeWhile (!isWhitespace ·) = control.text := by
    rw [hscan, append_assoc, takeWhile_append_of_pos (all_eq_true.mp hword),
      cons_append, takeWhile_cons_of_neg (by simp [hspace d mem_cons_self]),
      append_nil]
  have hbehind : (scan.rest.drop control.text.length).dropWhile isWhitespace = rest := by
    rw [hscan, append_assoc, drop_left, dropWhile_append_of_pos hspace]
    cases rest with
    | nil => rfl
    | cons c rest => exact dropWhile_cons_of_neg (by simp [hrest c rfl])
  simp only [readControl, htoken, hbehind]
  cases control with
  | scope field =>
    have hstrip : stripText "in:".toList (FieldControl.scope field).text = some field.word :=
      stripText_eq_some.mpr rfl
    simp only [ControlScan.take] at hnext
    simp only [hstrip, field.parse_word]
    split at hnext
    · cases hnext
    · next hfresh =>
      rw [if_neg hfresh]
      cases hnext
      rfl
  | emphasis field =>
    have hnone : stripText "in:".toList (FieldControl.emphasis field).text = none := by
      cases field <;> decide +kernel
    have hstrip : stripText ">".toList (FieldControl.emphasis field).text = some field.word :=
      stripText_eq_some.mpr rfl
    have hsome : field.word ≠ [] := by
      cases field <;> decide +kernel
    obtain ⟨c, value, hvalue⟩ := exists_cons_of_ne_nil hsome
    have hparse := field.parse_word
    simp only [ControlScan.take] at hnext
    simp only [hnone, hstrip]
    rw [hvalue] at hparse ⊢
    simp only [hparse]
    split at hnext
    · cases hnext
    · next hfresh =>
      rw [if_neg hfresh]
      cases hnext
      rfl

/-- A round that goes on has read a written control. -/
theorem readControl_some (h : readControl scan = .ok (some next)) :
    ∃ control gap, scan.rest = control.text ++ gap ++ next.rest ∧ gap.all isWhitespace = true ∧
      (next.rest ≠ [] → gap ≠ []) ∧ (∀ c ∈ next.rest.head?, isWhitespace c = false) ∧
      scan.take control next.rest = some next := by
  generalize htoken : scan.rest.takeWhile (!isWhitespace ·) = token
  generalize htail : scan.rest.dropWhile (!isWhitespace ·) = tail
  have hsplit : token ++ tail = scan.rest := by
    rw [← htoken, ← htail, takeWhile_append_dropWhile]
  have hdrop : scan.rest.drop token.length = tail := by
    rw [← hsplit, drop_left]
  have hfirst : ∀ c ∈ tail.head?, isWhitespace c = true := by
    rw [← htail]
    intro c hc
    simpa using head?_dropWhile_neg (!isWhitespace ·) _ c hc
  have hwritten : scan.rest = token ++ tail.takeWhile isWhitespace ++ tail.dropWhile isWhitespace := by
    rw [append_assoc, takeWhile_append_dropWhile, hsplit]
  have hgap : tail.dropWhile isWhitespace ≠ [] → tail.takeWhile isWhitespace ≠ [] := by
    intro hne
    cases tail with
    | nil => exact absurd rfl hne
    | cons c tail => simp [hfirst c rfl]
  have hspace : (tail.takeWhile isWhitespace).all isWhitespace = true := all_takeWhile
  have hhead : ∀ c ∈ (tail.dropWhile isWhitespace).head?, isWhitespace c = false :=
    head?_dropWhile_neg _ _
  simp only [readControl, htoken, hdrop] at h
  split at h
  · next value hstrip =>
    split at h
    · cases h
    next field hparse =>
    split at h
    · cases h
    next hfresh =>
    cases h
    have hcontrol : token = (FieldControl.scope field).text := by
      rw [stripText_eq_some.mp hstrip, QueryPublicField.eq_word_of_parse hparse]
      rfl
    exact ⟨.scope field, _, hcontrol ▸ hwritten, hspace, hgap, hhead, by simp [ControlScan.take, hfresh]⟩
  · split at h
    · cases h
    · cases h
    next value hbare hstrip =>
    split at h
    · cases h
    next field hparse =>
    split at h
    · cases h
    next hfresh =>
    cases h
    have hcontrol : token = (FieldControl.emphasis field).text := by
      rw [stripText_eq_some.mp hstrip, QueryPublicField.eq_word_of_parse hparse]
      rfl
    exact ⟨.emphasis field, _, hcontrol ▸ hwritten, hspace, hgap, hhead,
      by simp [ControlScan.take, hfresh]⟩

lemma ControlScan.take_eq_some (h : scan.take control rest = some next) :
    next.rest = rest ∧ next.parsedAny = true ∧
      next.scope.toList = scan.scope.toList ++ control.scope?.toList ∧
      next.emphasis.toList = scan.emphasis.toList ++ control.emphasis?.toList := by
  obtain ⟨front, scope, emphasis, parsed⟩ := scan
  cases control with
  | scope field =>
    cases scope with
    | none =>
      cases h
      simp [FieldControl.scope?, FieldControl.emphasis?]
    | some other => cases h
  | emphasis field =>
    cases emphasis with
    | none =>
      cases h
      simp [FieldControl.scope?, FieldControl.emphasis?]
    | some other => cases h

lemma dropWhile_of_head (h : ∀ c ∈ t.head?, isWhitespace c = false) :
    t.dropWhile isWhitespace = t := by
  cases t with
  | nil => rfl
  | cons c t => exact dropWhile_cons_of_neg (by simp [h c rfl])

lemma toList_inj {A : Type} {o o' : Option A} (h : o.toList = o'.toList) : o = o' := by
  cases o <;> cases o' <;> simp_all

/-! ## §3 The loop -/

/-- What the loop has read is written in front of what it leaves. -/
theorem readControls_written {rounds : ℕ} {final : ControlScan}
    (hrounds : scan.rest.length < rounds) (hread : readControls rounds scan = .ok final)
    (hstart : ∀ c ∈ scan.rest.head?, isWhitespace c = false) :
    ∃ controls, scan.rest = writtenControls controls ++ final.rest ∧
      (∀ entry ∈ controls, (final.rest ≠ [] → entry.2 ≠ []) ∧ entry.2.all isWhitespace = true) ∧
      final.scope.toList = scan.scope.toList ++ controls.filterMap (fun entry => entry.1.scope?) ∧
      final.emphasis.toList =
        scan.emphasis.toList ++ controls.filterMap (fun entry => entry.1.emphasis?) ∧
      (final.parsedAny = true ↔ scan.parsedAny = true ∨ controls ≠ []) ∧
      ¬ StartsControl final.rest ∧ ∀ c ∈ final.rest.head?, isWhitespace c = false := by
  induction rounds generalizing scan with
  | zero => exact absurd hrounds (Nat.not_lt_zero _)
  | succ rounds ih =>
    rw [readControls, bind_ok_iff] at hread
    obtain ⟨step, hstep, hread⟩ := hread
    cases step with
    | none =>
      cases hread
      exact ⟨[], rfl, by simp, by simp, by simp, by simp, readControl_none_iff.mp hstep, hstart⟩
    | some next =>
      obtain ⟨control, gap, hwritten, hspace, hgap, hhead, htake⟩ := readControl_some hstep
      obtain ⟨-, hparsed, hscope, hemphasis⟩ := ControlScan.take_eq_some htake
      have hshorter : next.rest.length < rounds := by
        have hword := length_pos_of_ne_nil control.text_word.1
        have hlength := congrArg length hwritten
        simp only [length_append] at hlength
        omega
      obtain ⟨controls, hrest, hgaps, hscopes, hemphases, hany, hplain, hend⟩ :=
        ih hshorter hread hhead
      refine ⟨(control, gap) :: controls, ?_, ?_, ?_, ?_, by simp [hany, hparsed], hplain, hend⟩
      · rw [hwritten, hrest]
        simp [writtenControls]
      · intro entry hentry
        rcases mem_cons.mp hentry with rfl | hentry
        · refine ⟨fun hne => hgap fun hnil => hne ?_, hspace⟩
          rw [hrest] at hnil
          exact (append_eq_nil_iff.mp hnil).2
        · exact hgaps entry hentry
      · rw [hscopes, hscope, append_assoc]
        cases control <;> simp [FieldControl.scope?]
      · rw [hemphases, hemphasis, append_assoc]
        cases control <;> simp [FieldControl.emphasis?]

variable {emphasis scope : Option QueryPublicField}

/-- A control is taken when there is no other of its kind. -/
theorem ControlScan.exists_take {scopes emphases : List QueryPublicField}
    (hscope : scope.toList = scan.scope.toList ++ (control.scope?.toList ++ scopes))
    (hemphasis : emphasis.toList = scan.emphasis.toList ++ (control.emphasis?.toList ++ emphases)) :
    ∃ next, scan.take control rest = some next := by
  have hone : ∀ o : Option QueryPublicField, o.toList.length ≤ 1 := by
    intro o
    cases o <;> simp
  cases control with
  | scope field =>
    cases hsome : scan.scope with
    | none => simp [ControlScan.take, hsome]
    | some other =>
      have hlength := hone scope
      simp [hscope, hsome, FieldControl.scope?] at hlength
  | emphasis field =>
    cases hsome : scan.emphasis with
    | none => simp [ControlScan.take, hsome]
    | some other =>
      have hlength := hone emphasis
      simp [hemphasis, hsome, FieldControl.emphasis?] at hlength

lemma head?_writtenControls {controls : List (FieldControl × Text)}
    (htext : ∀ c ∈ t.head?, isWhitespace c = false) :
    ∀ c ∈ (writtenControls controls ++ t).head?, isWhitespace c = false := by
  cases controls with
  | nil => exact htext
  | cons entry controls =>
    obtain ⟨hne, hword⟩ := entry.1.text_word
    obtain ⟨d, word, hd⟩ := exists_cons_of_ne_nil hne
    intro c hc
    simp only [writtenControls, flatMap_cons, hd, cons_append, head?_cons,
      Option.mem_some_iff] at hc
    rw [hd] at hword
    simpa [hc] using all_eq_true.mp hword d mem_cons_self

/-- Controls that are written are read, one of each kind at most. -/
theorem readControls_of_written {controls : List (FieldControl × Text)} {rounds : ℕ}
    (hrounds : controls.length < rounds) (hwritten : scan.rest = writtenControls controls ++ t)
    (hgaps : ∀ entry ∈ controls, entry.2 ≠ [] ∧ entry.2.all isWhitespace = true)
    (hscope : scope.toList = scan.scope.toList ++ controls.filterMap (fun entry => entry.1.scope?))
    (hemphasis : emphasis.toList =
      scan.emphasis.toList ++ controls.filterMap (fun entry => entry.1.emphasis?))
    (htext : ∀ c ∈ t.head?, isWhitespace c = false) (hplain : ¬ StartsControl t) :
    readControls rounds scan =
      .ok ⟨t, scope, emphasis, scan.parsedAny || controls ≠ []⟩ := by
  induction controls generalizing rounds scan with
  | nil =>
    cases rounds with
    | zero => exact absurd hrounds (Nat.not_lt_zero _)
    | succ rounds =>
      have hrest : scan.rest = t := hwritten
      have hnone : readControl scan = .ok none := readControl_none_iff.mpr (hrest ▸ hplain)
      have hscope' : scope = scan.scope := toList_inj (by simpa using hscope)
      have hemphasis' : emphasis = scan.emphasis := toList_inj (by simpa using hemphasis)
      rw [readControls, hnone, hscope', hemphasis', ← hrest]
      simp [bind, Except.bind]
  | cons entry controls ih =>
    obtain ⟨control, gap⟩ := entry
    cases rounds with
    | zero => exact absurd hrounds (Nat.not_lt_zero _)
    | succ rounds =>
      have hscope' : scope.toList = scan.scope.toList ++ (control.scope?.toList ++
          controls.filterMap fun entry => entry.1.scope?) := by
        rw [hscope]
        cases control <;> simp [FieldControl.scope?]
      have hemphasis' : emphasis.toList = scan.emphasis.toList ++ (control.emphasis?.toList ++
          controls.filterMap fun entry => entry.1.emphasis?) := by
        rw [hemphasis]
        cases control <;> simp [FieldControl.emphasis?]
      obtain ⟨next, hnext⟩ := 
        @ControlScan.exists_take (writtenControls controls ++ t) scan control _ _ _ _ hscope'
          hemphasis'
      obtain ⟨hrest, hparsed, htaken, htaken'⟩ := ControlScan.take_eq_some hnext
      have hstep : readControl scan = .ok (some next) :=
        readControl_written (by rw [hwritten]; simp [writtenControls])
          (hgaps _ mem_cons_self) (head?_writtenControls htext) hnext
      rw [← append_assoc, ← htaken] at hscope'
      rw [← append_assoc, ← htaken'] at hemphasis'
      have hlater := ih (Nat.lt_of_succ_lt_succ hrounds) hrest
        (fun entry hentry => hgaps entry (mem_cons_of_mem _ hentry)) hscope' hemphasis'
      rw [readControls, hstep]
      change readControls rounds next = _
      rw [hlater, hparsed]
      simp

/-! ## §4 The grammar -/

lemma toList_controls_ne_nil {controls : List (FieldControl × Text)} (hne : controls ≠ [])
    (scope emphasis : Option QueryPublicField)
    (hscope : scope.toList = controls.filterMap (fun entry => entry.1.scope?))
    (hemphasis : emphasis.toList = controls.filterMap (fun entry => entry.1.emphasis?)) :
    scope.isSome = true ∨ emphasis.isSome = true := by
  obtain ⟨⟨control, gap⟩, rest, rfl⟩ := exists_cons_of_ne_nil hne
  cases control with
  | scope field =>
    left
    cases scope with
    | none => simp [FieldControl.scope?] at hscope
    | some _ => rfl
  | emphasis field =>
    right
    cases emphasis with
    | none => simp [FieldControl.emphasis?] at hemphasis
    | some _ => rfl

lemma controlsContradict_eq_false :
    controlsContradict scope emphasis = false ↔
      ∀ s ∈ scope, ∀ e ∈ emphasis, s.contains e = true := by
  cases scope <;> cases emphasis <;> simp [controlsContradict]

variable {result : ParsedFieldControls}

lemma parseFieldControls_of_grammar (h : ControlGrammar query result) :
    parseFieldControls query = .ok result := by
  obtain ⟨lead, controls, hquery, hlead, hne, hgaps, hscope, hemphasis⟩ := h.written
  obtain ⟨c, hc, hspace⟩ := h.text
  have htext : ∀ c ∈ result.queryText.head?, isWhitespace c = false := by
    intro d hd
    rw [Option.mem_def.mp hc, Option.mem_some_iff] at hd
    rwa [← hd]
  have hstart : query.dropWhile isWhitespace = writtenControls controls ++ result.queryText := by
    rw [hquery, append_assoc, dropWhile_append_of_pos (all_eq_true.mp hlead)]
    exact dropWhile_of_head (head?_writtenControls htext)
  have hrounds : controls.length < (writtenControls controls ++ result.queryText).length + 1 := by
    have hlong : controls.length ≤ (writtenControls controls).length := by
      clear * -
      induction controls with
      | nil => exact Nat.le_refl _
      | cons entry controls ih =>
        have hword := length_pos_of_ne_nil entry.1.text_word.1
        simp only [writtenControls, flatMap_cons, length_append, length_cons] at ih ⊢
        omega
    rw [length_append]
    omega
  have hread := @readControls_of_written _ ⟨_, none, none, false⟩ _ _ controls _ hrounds rfl hgaps
    hscope.symm hemphasis.symm htext h.plain
  have hsome : result.queryText ≠ [] := by
    rintro hnil
    rw [hnil] at hc
    cases hc
  have hcontradict := controlsContradict_eq_false.mpr h.contained
  rw [parseFieldControls, hstart, hread]
  simp only [bind, Except.bind]
  simp [hne, rejectIf, hsome, h.prose, hcontradict]

/-- What is accepted with a scope or an emphasis is a controlled query; what starts with no control
passes through. -/
theorem grammar_of_parseFieldControls (h : parseFieldControls query = .ok result) :
    ControlGrammar query result ∨
      result = ⟨query, none, none⟩ ∧ ¬ StartsControl (query.dropWhile isWhitespace) := by
  rw [parseFieldControls, bind_ok_iff] at h
  obtain ⟨final, hread, h⟩ := h
  obtain ⟨controls, hwritten, hgaps, hscope, hemphasis, hany, hplain, hhead⟩ :=
    readControls_written (Nat.lt_succ_self _) hread (head?_dropWhile_neg _ _)
  have hstart : query.dropWhile isWhitespace = writtenControls controls ++ final.rest := hwritten
  simp only [Bool.false_eq_true, false_or] at hany
  split at h
  · next hnone =>
    have hnil : controls = [] := by
      by_contra hne
      simp [hany.mpr hne] at hnone
    subst hnil
    cases h
    refine .inr ⟨rfl, ?_⟩
    rw [hstart]
    exact hplain
  · next hsome =>
    have hne : controls ≠ [] := hany.mp (by simpa using hsome)
    simp only [bind_unit_ok_iff, rejectIf_ok, Except.ok.injEq] at h
    obtain ⟨htext, hprose, hcontradict, rfl⟩ := h
    obtain ⟨c, rest, hrest⟩ := exists_cons_of_ne_nil htext
    refine .inl ⟨⟨query.takeWhile isWhitespace, controls, ?_, all_takeWhile, hne, ?_, ?_, ?_⟩,
      ⟨c, by rw [hrest]; rfl, hhead c (by rw [hrest]; rfl)⟩, hplain, by simpa using hprose,
      controlsContradict_eq_false.mp (by simpa using hcontradict)⟩
    · rw [append_assoc, ← hstart, takeWhile_append_dropWhile]
    · exact fun entry hentry => ⟨(hgaps entry hentry).1 htext, (hgaps entry hentry).2⟩
    · simpa using hscope.symm
    · simpa using hemphasis.symm

/-- The controls of a result, the scope before the emphasis. -/
def ParsedFieldControls.controls (result : ParsedFieldControls) : List FieldControl :=
  result.scope.toList.map .scope ++ result.emphasis.toList.map .emphasis

/-- The controls, a space behind each, and the text. -/
def renderControls (controls : List FieldControl) (t : Text) : Text :=
  writtenControls (controls.map fun control => (control, [' '])) ++ t

lemma eq_of_perm_toList {A : Type} {o : Option A} {l : List A} (h : l.Perm o.toList) :
    l = o.toList := by
  cases o with
  | none => exact h.eq_nil
  | some a => exact perm_singleton.mp h

/-- What is written from the controls of an accepted result is controlled in the same way. -/
theorem ControlGrammar.render (h : ControlGrammar query result) {controls : List FieldControl}
    (hperm : controls.Perm result.controls) :
    ControlGrammar (renderControls controls result.queryText) result := by
  have hscope : controls.filterMap FieldControl.scope? = result.scope.toList := by
    refine eq_of_perm_toList ((hperm.filterMap _).trans (.of_eq ?_))
    unfold ParsedFieldControls.controls
    cases result.scope <;> cases result.emphasis <;> rfl
  have hemphasis : controls.filterMap FieldControl.emphasis? = result.emphasis.toList := by
    refine eq_of_perm_toList ((hperm.filterMap _).trans (.of_eq ?_))
    unfold ParsedFieldControls.controls
    cases result.scope <;> cases result.emphasis <;> rfl
  have hne : controls ≠ [] := by
    rintro rfl
    obtain ⟨-, written, -, -, hwritten, -, hs, he⟩ := h.written
    rw [filterMap_nil] at hscope hemphasis
    rw [← hscope] at hs
    rw [← hemphasis] at he
    rcases toList_controls_ne_nil hwritten none none hs.symm he.symm with h | h <;> cases h
  refine ⟨⟨[], controls.map fun control => (control, [' ']), rfl, rfl, by simpa using hne, ?_, ?_, ?_⟩,
    h.text, h.plain, h.prose, h.contained⟩
  · intro entry hentry
    obtain ⟨control, -, rfl⟩ := mem_map.mp hentry
    exact ⟨cons_ne_nil _ _, (by decide +kernel : ([' '] : Text).all isWhitespace = true)⟩
  · rw [filterMap_map]
    exact hscope
  · rw [filterMap_map]
    exact hemphasis

/-- **The grammar of field controls**: what is accepted with a scope or an emphasis is what the
grammar describes, a query that starts with no control passes through, anything else is an error,
and an accepted result that is written with its controls in either order is read back. -/
theorem parseFieldControls_grammar (query : Text) :
    (∀ result : ParsedFieldControls, result.scope.isSome ∨ result.emphasis.isSome →
      (parseFieldControls query = .ok result ↔ ControlGrammar query result)) ∧
    (¬ StartsControl (query.dropWhile isWhitespace) →
      parseFieldControls query = .ok ⟨query, none, none⟩) ∧
    (StartsControl (query.dropWhile isWhitespace) → (∀ result, ¬ ControlGrammar query result) →
      ∃ error, parseFieldControls query = .error error) ∧
    ∀ result, parseFieldControls query = .ok result → ∀ controls,
      controls.Perm result.controls →
      parseFieldControls (renderControls controls result.queryText) = .ok result := by
  refine ⟨fun result hsome => ⟨fun h => ?_, parseFieldControls_of_grammar⟩, fun hplain => ?_,
    fun hstarts hnot => ?_, fun result h controls hperm => ?_⟩
  · rcases grammar_of_parseFieldControls h with hgrammar | ⟨rfl, -⟩
    · exact hgrammar
    · simp at hsome
  · have hnone : readControl ⟨query.dropWhile isWhitespace, none, none, false⟩ = .ok none :=
      readControl_none_iff.mpr hplain
    rw [parseFieldControls, readControls, hnone]
    simp [bind, Except.bind]
  · cases hparse : parseFieldControls query with
    | error error => exact ⟨error, rfl⟩
    | ok result =>
      rcases grammar_of_parseFieldControls hparse with hgrammar | ⟨-, hplain⟩
      · exact absurd hgrammar (hnot result)
      · exact absurd hstarts hplain
  · rcases grammar_of_parseFieldControls h with hgrammar | ⟨rfl, -⟩
    · exact parseFieldControls_of_grammar (hgrammar.render hperm)
    · obtain rfl := hperm.eq_nil
      exact h

end Kwiry
