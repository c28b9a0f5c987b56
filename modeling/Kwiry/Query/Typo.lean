import Kwiry.Foundations.EditDistance
import Kwiry.Foundations.Sorting
import Kwiry.Query.Preparation

/-!
# Typo Suggestions

`typo.rs`: a query of one plain word may be answered with a word of the vocabulary that is one edit
away. The candidates are those that share its first four letters, and the work on them is counted
against a bound.
-/

namespace Kwiry

open Foundations List

/-! ## §1 One edit apart -/

def typoMaxEditDistance : ℕ := 1

/-- The walk over what is behind the two indexes; both are moved over a match, and over the first
difference by the lengths of the words. -/
def editWalk (lengths : Ordering) : Bytes → Bytes → ℕ → ℕ → Bool × ℕ
  | a :: left, b :: right, edits, work =>
    if a = b then editWalk lengths left right edits (work + 1)
    else if typoMaxEditDistance < edits + 1 then (false, work + 1)
    else match lengths with
      | .eq => editWalk lengths left right (edits + 1) (work + 1)
      | .gt => editWalk lengths left (b :: right) (edits + 1) (work + 1)
      | .lt => editWalk lengths (a :: left) right (edits + 1) (work + 1)
  | [], [], edits, work => (decide (edits = typoMaxEditDistance), work)
  -- what is left of the longer word is one edit
  | [], _ :: _, edits, work => (decide (edits + 1 = typoMaxEditDistance), work + 1)
  | _ :: _, [], edits, work => (decide (edits + 1 = typoMaxEditDistance), work + 1)
termination_by left right => left.length + right.length

def oneEditApart (left right : Bytes) : Bool × ℕ :=
  if left = right ∨ typoMaxEditDistance < (left.length - right.length) + (right.length - left.length)
  then (false, 1)
  else editWalk (compare left.length right.length) left right 0 0

section Walk

variable {lengths : Ordering} {left right : Bytes}

lemma editWalk_match (a : UInt8) (left right : Bytes) (edits work : ℕ) :
    editWalk lengths (a :: left) (a :: right) edits work =
      editWalk lengths left right edits (work + 1) := by
  cases lengths <;> rw [editWalk, if_pos rfl]

/-- After the edit the rest has to be the same. -/
theorem editWalk_one (lengths : Ordering) (hlength : left.length = right.length) (work : ℕ) :
    ((editWalk lengths left right 1 work).1 = true ↔ left = right) ∧
      (editWalk lengths left right 1 work).2 ≤ work + left.length := by
  induction left generalizing right work with
  | nil =>
    obtain rfl := length_eq_zero_iff.mp hlength.symm
    simp [editWalk, typoMaxEditDistance]
  | cons a left ih =>
    cases right with
    | nil => cases hlength
    | cons b right =>
      by_cases hab : a = b
      · subst hab
        obtain ⟨hiff, hwork⟩ := ih (Nat.succ.inj hlength) (work + 1)
        rw [editWalk_match, hiff, length_cons]
        exact ⟨by simp, by omega⟩
      · have hstop : editWalk lengths (a :: left) (b :: right) 1 work = (false, work + 1) := by
          cases lengths <;> rw [editWalk, if_neg hab, if_pos (by decide)]
        rw [hstop, length_cons]
        exact ⟨by simp [hab], by omega⟩

/-- The lengths of two words, for the walk over them. -/
def Lengths (lengths : Ordering) (left right : Bytes) : Prop :=
  match lengths with
  | .eq => left.length = right.length
  | .gt => left.length = right.length + 1
  | .lt => right.length = left.length + 1

lemma editWalk_spec (hlength : Lengths lengths left right) (work : ℕ) :
    ((editWalk lengths left right 0 work).1 = true ↔ Edit left right) ∧
      (editWalk lengths left right 0 work).2 ≤ work + max left.length right.length := by
  induction left generalizing right work with
  | nil =>
    cases lengths with
    | gt => cases hlength
    | eq =>
      obtain rfl := length_eq_zero_iff.mp (Eq.symm hlength)
      simp [editWalk, typoMaxEditDistance, edit_nil_left]
    | lt =>
      obtain ⟨b, rfl⟩ := length_eq_one_iff.mp hlength
      simp [editWalk, typoMaxEditDistance, edit_nil_left]
  | cons a left ih =>
    cases right with
    | nil =>
      cases lengths with
      | eq | lt => cases hlength
      | gt =>
        obtain rfl := length_eq_zero_iff.mp (Nat.succ.inj hlength)
        simp [editWalk, typoMaxEditDistance, edit_nil_right]
    | cons b right =>
      have hrest : Lengths lengths left right := by
        cases lengths <;> exact Nat.succ.inj hlength
      by_cases hab : a = b
      · subst hab
        obtain ⟨hiff, hwork⟩ := ih hrest (work + 1)
        rw [editWalk_match, hiff, edit_cons_self, length_cons, length_cons]
        exact ⟨Iff.rfl, by omega⟩
      · -- what is left after the first difference has to be the same
        have hne : ∀ {s t : Bytes}, s.length ≠ t.length → (s = t ↔ False) := fun h =>
          iff_false_intro fun heq => h (congrArg length heq)
        rw [edit_cons_ne hab]
        cases lengths with
        | eq =>
          have hrest : left.length = right.length := hrest
          obtain ⟨hiff, hwork⟩ := editWalk_one .eq hrest (work + 1)
          rw [editWalk, if_neg hab, if_neg (by decide), hne (s := right) (by simp; omega),
            hne (s := left) (t := b :: right) (by simp; omega), false_or, false_or]
          exact ⟨hiff, by simp only [Nat.zero_add, length_cons]; omega⟩
        | gt =>
          have hrest : left.length = (b :: right).length := hrest
          obtain ⟨hiff, hwork⟩ := editWalk_one .gt hrest (work + 1)
          rw [length_cons] at hrest
          rw [editWalk, if_neg hab, if_neg (by decide), hne (s := right) (by simp; omega),
            hne (s := left) (t := right) (by omega), false_or, or_false]
          exact ⟨hiff, by simp only [Nat.zero_add, length_cons]; omega⟩
        | lt =>
          have hrest : (a :: left).length = right.length := Eq.symm hrest
          obtain ⟨hiff, hwork⟩ := editWalk_one .lt hrest (work + 1)
          rw [length_cons] at hrest hwork
          rw [editWalk, if_neg hab, if_neg (by decide), hne (s := left) (by simp; omega),
            hne (s := left) (t := right) (by omega), or_false, or_false, eq_comm (a := right)]
          exact ⟨hiff, by simp only [Nat.zero_add, length_cons]; omega⟩

lemma lengths_compare (h : (left.length - right.length) + (right.length - left.length) ≤ 1) :
    Lengths (compare left.length right.length) left right := by
  unfold Lengths
  split
  next heq => exact Nat.compare_eq_eq.mp heq
  next hgt =>
    have hgt := Nat.compare_eq_gt.mp hgt
    omega
  next hlt =>
    have hlt := Nat.compare_eq_lt.mp hlt
    omega

lemma oneEditApart_iff (left right : Bytes) :
    (oneEditApart left right).1 = true ↔ levenshtein left right = 1 := by
  rw [levenshtein_eq_one_iff, oneEditApart]
  split
  next h =>
    refine ⟨nofun, fun hedit => ?_⟩
    have hlength := hedit.length_le
    rcases h with rfl | h
    · exact absurd rfl hedit.ne
    · unfold typoMaxEditDistance at h
      omega
  next h =>
    simp only [not_or, not_lt, typoMaxEditDistance] at h
    exact (editWalk_spec (lengths_compare h.2) 0).1

lemma oneEditApart_work_le (left right : Bytes) :
    (oneEditApart left right).2 ≤ left.length + 1 := by
  rw [oneEditApart]
  split
  · exact Nat.le_add_left 1 _
  next h =>
    simp only [not_or, not_lt, typoMaxEditDistance] at h
    have hwork := (editWalk_spec (lengths_compare h.2) 0).2
    omega

end Walk

/-! ## §2 Plans -/

def typoSuggestionSchemaVersion : ℕ := 1
def typoPrefixChars : ℕ := 4
def typoMinTermChars : ℕ := 5
def typoMaxTermBytes : ℕ := 48
def typoMaxVocabularyCandidates : ℕ := 40
def typoMaxCandidateBytes : ℕ := 96
def typoMaxOutputSuggestions : ℕ := 1
def typoMaxWorkUnits : ℕ := typoMaxVocabularyCandidates * typoMaxCandidateBytes
def usizeMax : ℕ := 2 ^ 64 - 1

def typoPrefixLimitation : Text :=
  ("Bounded prefix vocabulary only considers terms sharing the first four ASCII characters; " ++
    "it cannot catch early-character errors such as rettrieval.").toList

inductive TypoSuggestionDisposition where
  | probe | explicitSyntaxBypass | ineligible | suggestion | noCandidate
  deriving DecidableEq

structure TypoSuggestionBounds where
  (prefixChars maxTermBytes maxVocabularyCandidates maxCandidateBytes maxEditDistance : ℕ)
  (maxOutputSuggestions maxWorkUnits : ℕ)
  deriving DecidableEq

def TypoSuggestionBounds.prototype : TypoSuggestionBounds where
  prefixChars := typoPrefixChars
  maxTermBytes := typoMaxTermBytes
  maxVocabularyCandidates := typoMaxVocabularyCandidates
  maxCandidateBytes := typoMaxCandidateBytes
  maxEditDistance := typoMaxEditDistance
  maxOutputSuggestions := typoMaxOutputSuggestions
  maxWorkUnits := typoMaxWorkUnits

structure TypoSuggestionPlan where
  schemaVersion : ℕ
  disposition : TypoSuggestionDisposition
  query : Text
  (term prefixPattern : Option Text)
  bounds : TypoSuggestionBounds
  limitation : Text

structure TypoVocabularyCandidate where
  term : Text
  documentFrequency : ℕ

structure TypoSuggestionResult where
  schemaVersion : ℕ
  disposition : TypoSuggestionDisposition
  originalQuery : Text
  suggestedQuery : Option Text
  (candidatesExamined workUnits : ℕ)
  bounds : TypoSuggestionBounds
  limitation : Text

def isAsciiLower (c : Char) : Bool := 'a' ≤ c && c ≤ 'z'

def isAsciiAlphabetic (c : Char) : Bool := isAsciiLower c || ('A' ≤ c && c ≤ 'Z')

def asciiLower (c : Char) : Char :=
  if 'A' ≤ c ∧ c ≤ 'Z' then Char.ofNat (c.toNat + 32) else c

def eqIgnoreAsciiCase (left right : Text) : Bool :=
  left.map asciiLower = right.map asciiLower

def typoPlan (query : Text) (disposition : TypoSuggestionDisposition)
    (term prefixPattern : Option Text) : TypoSuggestionPlan where
  schemaVersion := typoSuggestionSchemaVersion
  disposition
  query
  term
  prefixPattern
  bounds := .prototype
  limitation := typoPrefixLimitation

/-- One term, of lower-case ASCII letters, that the query spells. -/
def isTypoTerm (query term : Text) : Bool :=
  utf8Len term ≤ typoMaxTermBytes && typoMinTermChars ≤ term.length && term.all isAsciiLower &&
    (trim query).all isAsciiAlphabetic && eqIgnoreAsciiCase (trim query) term

variable (T : CharTables)

def prepareTypoSuggestion (query : Text) : TypoSuggestionPlan :=
  if query = [] ∨ maxQueryBytes < utf8Len query then typoPlan query .ineligible none none
  else
    match prepareLexicalQuery T query with
    | .error _ => typoPlan query .ineligible none none
    | .ok plan =>
      if plan.assistance = .explicitSyntaxBypass then
        typoPlan query .explicitSyntaxBypass none none
      else if plan.kind ≠ .ordinary then typoPlan query .ineligible none none
      else
        match plan.terms with
        | [term] =>
          if isTypoTerm query term = false then typoPlan query .ineligible none none
          else
            let lead := term.take typoPrefixChars
            if lead.length ≠ typoPrefixChars then typoPlan query .ineligible none none
            else typoPlan query .probe (some term) (some (lead ++ ['%']))
        | _ => typoPlan query .ineligible none none

/-! ## §3 Suggestions -/

def resultFromPlan (plan : TypoSuggestionPlan) (suggestion : Option Text)
    (candidatesExamined workUnits : ℕ) : TypoSuggestionResult where
  schemaVersion := typoSuggestionSchemaVersion
  disposition :=
    if plan.disposition = .probe then
      if suggestion.isSome then .suggestion else .noCandidate
    else plan.disposition
  originalQuery := plan.query
  suggestedQuery := suggestion
  candidatesExamined
  workUnits
  bounds := plan.bounds
  limitation := plan.limitation

/-- What the loop over the candidates has gathered. -/
structure TypoScan where
  seen : List Text
  ranked : List (Text × ℕ)
  workUnits : ℕ

/-- What the vocabulary may propose for a prefix. -/
def isTypoCandidate (lead : Text) (candidate : TypoVocabularyCandidate) : Bool :=
  candidate.documentFrequency ≠ 0 && candidate.term ≠ [] &&
    utf8Len candidate.term ≤ typoMaxCandidateBytes && candidate.term.all isAsciiLower &&
    lead.isPrefixOf candidate.term

def examineCandidate (term lead : Text) (scan : TypoScan) (candidate : TypoVocabularyCandidate) :
    Except Text TypoScan := do
  rejectIf (isTypoCandidate lead candidate = false ∨ candidate.term ∈ scan.seen)
    "typo vocabulary candidate is invalid".toList
  let (matched, work) := oneEditApart (utf8 term) (utf8 candidate.term)
  rejectIf (usizeMax < scan.workUnits + work) "typo suggestion work counter overflowed".toList
  rejectIf (typoMaxWorkUnits < scan.workUnits + work)
    "typo suggestion work exceeds its bound".toList
  .ok
    { seen := candidate.term :: scan.seen
      ranked := if matched then scan.ranked ++ [(candidate.term, candidate.documentFrequency)]
        else scan.ranked
      workUnits := scan.workUnits + work }

/-- The most frequent first, then by bytes. -/
def compareSuggestions (left right : Text × ℕ) : Ordering :=
  (compare right.2 left.2).then (compare left.1 right.1)

def stripPercent (pattern : Text) : Option Text :=
  if pattern.getLast? = some '%' then some pattern.dropLast else none

def finalizeTypoSuggestion (query : Text) (candidates : List TypoVocabularyCandidate) :
    Except Text TypoSuggestionResult := do
  let plan := prepareTypoSuggestion T query
  rejectIf (typoMaxVocabularyCandidates < candidates.length)
    "typo vocabulary candidate count exceeds its bound".toList
  if plan.disposition ≠ .probe then do
    rejectIf (candidates ≠ []) "ineligible typo suggestion received vocabulary candidates".toList
    .ok (resultFromPlan plan none 0 0)
  else
    match plan.term, plan.prefixPattern.bind stripPercent with
    | some term, some lead => do
      let scan ← candidates.foldlM (examineCandidate term lead) ⟨[], [], 0⟩
      let suggestion := (sortBy compareSuggestions scan.ranked).head?.map (·.1)
      .ok (resultFromPlan plan suggestion candidates.length scan.workUnits)
    | none, _ => .error "probe plan has a term".toList
    | some _, none => .error "probe plan has a bounded prefix".toList

variable {T}

variable {query term : Text}

/-- What a probe has. -/
theorem prepareTypoSuggestion_probe (h : (prepareTypoSuggestion T query).disposition = .probe) :
    ∃ term, isTypoTerm query term = true ∧ prepareTypoSuggestion T query =
      typoPlan query .probe (some term) (some (term.take typoPrefixChars ++ ['%'])) := by
  unfold prepareTypoSuggestion at h ⊢
  split at h
  · cases h
  next hbounds =>
  split at h
  · cases h
  next plan hplan =>
  split at h
  · cases h
  next hassistance =>
  split at h
  · cases h
  next hkind =>
  split at h
  next term hterm =>
    split at h
    · cases h
    next hok =>
    simp only at h
    split at h
    · cases h
    next hlead =>
      refine ⟨term, by simpa using hok, ?_⟩
      simp only [hbounds, if_false, hassistance, hkind, hok, hlead, Bool.true_eq_false]
  next => cases h

instance : Std.TransCmp compareSuggestions := by
  have heq : compareSuggestions =
      compareLex (fun a b => compareOn Prod.snd b a) (compareOn Prod.fst) := rfl
  rw [heq]
  infer_instance

lemma compareSuggestions_inj {left right : Text × ℕ}
    (h : compareSuggestions left right = .eq) : left = right := by
  obtain ⟨hfrequency, hterm⟩ := Ordering.then_eq_eq.mp h
  exact Prod.ext (Std.LawfulEqOrd.eq_of_compare hterm)
    (Std.LawfulEqOrd.eq_of_compare hfrequency).symm

/-- Candidates that the vocabulary may propose, each once. -/
structure ValidCandidates (lead : Text) (candidates : List TypoVocabularyCandidate) : Prop where
  bounded : candidates.length ≤ typoMaxVocabularyCandidates
  valid : ∀ candidate ∈ candidates, isTypoCandidate lead candidate = true
  distinct : (candidates.map (·.term)).Nodup

/-- The candidates at distance one, as they are ranked. -/
def rankedCandidates (term : Text) (candidates : List TypoVocabularyCandidate) : List (Text × ℕ) :=
  (candidates.filter fun candidate => (oneEditApart (utf8 term) (utf8 candidate.term)).1).map
    fun candidate => (candidate.term, candidate.documentFrequency)

variable {candidates : List TypoVocabularyCandidate}

/-- The loop over valid candidates keeps within its bound. -/
theorem foldlM_examineCandidate {lead : Text} (hterm : utf8Len term ≤ typoMaxTermBytes)
    {scan : TypoScan} (hvalid : ∀ candidate ∈ candidates, isTypoCandidate lead candidate = true)
    (hdistinct : (candidates.map (·.term)).Nodup)
    (hunseen : ∀ candidate ∈ candidates, candidate.term ∉ scan.seen)
    (hwork : scan.workUnits + candidates.length * (typoMaxTermBytes + 1) ≤ typoMaxWorkUnits) :
    ∃ final, candidates.foldlM (examineCandidate term lead) scan = .ok final ∧
      final.ranked = scan.ranked ++ rankedCandidates term candidates ∧
      final.workUnits ≤ typoMaxWorkUnits := by
  induction candidates generalizing scan with
  | nil => exact ⟨scan, rfl, by simp [rankedCandidates], by simpa using hwork⟩
  | cons candidate rest ih =>
    have hpair : (oneEditApart (utf8 term) (utf8 candidate.term)).2 ≤ typoMaxTermBytes + 1 := by
      refine (oneEditApart_work_le _ _).trans ?_
      rw [length_utf8]
      omega
    rw [length_cons, Nat.add_mul, Nat.one_mul] at hwork
    have hbound : scan.workUnits + (oneEditApart (utf8 term) (utf8 candidate.term)).2 ≤
        typoMaxWorkUnits := by omega
    have husize : typoMaxWorkUnits ≤ usizeMax := by decide
    obtain ⟨hnew, hrest⟩ := nodup_cons.mp hdistinct
    let next : TypoScan :=
      { seen := candidate.term :: scan.seen
        ranked := if (oneEditApart (utf8 term) (utf8 candidate.term)).1 then
          scan.ranked ++ [(candidate.term, candidate.documentFrequency)] else scan.ranked
        workUnits := scan.workUnits + (oneEditApart (utf8 term) (utf8 candidate.term)).2 }
    have hstep : examineCandidate term lead scan candidate = .ok next := by
      have hok := hvalid candidate mem_cons_self
      have hfresh := hunseen candidate mem_cons_self
      simp only [examineCandidate, bind_unit_ok_iff, rejectIf_ok, hok, hfresh]
      exact ⟨by simp, by omega, by omega, rfl⟩
    have hunseenNext : ∀ other ∈ rest, other.term ∉ next.seen := by
      intro other hother hseen
      rcases mem_cons.mp hseen with heq | hseen
      · exact hnew (mem_map.mpr ⟨other, hother, heq⟩)
      · exact hunseen other (mem_cons_of_mem _ hother) hseen
    have hworkNext : next.workUnits + rest.length * (typoMaxTermBytes + 1) ≤ typoMaxWorkUnits := by
      change scan.workUnits + (oneEditApart (utf8 term) (utf8 candidate.term)).2 + _ ≤ _
      omega
    obtain ⟨final, hfinal, hranked, hunits⟩ := ih
      (fun other hother => hvalid other (mem_cons_of_mem _ hother)) hrest hunseenNext hworkNext
    refine ⟨final, ?_, hranked.trans ?_, hunits⟩
    · rw [foldlM_cons, hstep]
      exact hfinal
    · change (if _ then _ else _) ++ _ = _
      rw [rankedCandidates, rankedCandidates, filter_cons]
      split <;> simp

/-- The candidate at distance one that comes before the others at distance one: more documents have
it, or as many and its term is the lesser one. -/
structure IsBestCandidate (term : Text) (candidates : List TypoVocabularyCandidate)
    (best : TypoVocabularyCandidate) : Prop where
  mem : best ∈ candidates
  distance : levenshtein (utf8 term) (utf8 best.term) = 1
  first : ∀ other ∈ candidates, levenshtein (utf8 term) (utf8 other.term) = 1 →
    other.documentFrequency < best.documentFrequency ∨
      other.documentFrequency = best.documentFrequency ∧ (compare best.term other.term).isLE = true

lemma mem_rankedCandidates {entry : Text × ℕ} : entry ∈ rankedCandidates term candidates ↔
      ∃ candidate ∈ candidates, levenshtein (utf8 term) (utf8 candidate.term) = 1 ∧
        (candidate.term, candidate.documentFrequency) = entry := by
  simp only [rankedCandidates, mem_map, mem_filter, oneEditApart_iff, and_assoc]

lemma head_rankedCandidates {best : Text}
    (h : (sortBy compareSuggestions (rankedCandidates term candidates)).head?.map (·.1) =
      some best) :
    ∃ candidate, IsBestCandidate term candidates candidate ∧ candidate.term = best := by
  obtain ⟨entry, hentry, rfl⟩ := Option.map_eq_some_iff.mp h
  obtain ⟨rest, hrest⟩ : ∃ rest,
      sortBy compareSuggestions (rankedCandidates term candidates) = entry :: rest := by
    cases hsorted : sortBy compareSuggestions (rankedCandidates term candidates) with
    | nil =>
      rw [hsorted] at hentry
      cases hentry
    | cons a rest =>
      rw [hsorted] at hentry
      exact ⟨rest, by rw [Option.some.inj hentry]⟩
  obtain ⟨hmem, hfirst⟩ := sortBy_head_isLE hrest
  obtain ⟨candidate, hcandidate, hdistance, rfl⟩ := mem_rankedCandidates.mp hmem
  refine ⟨candidate, ⟨hcandidate, hdistance, fun other hother hone => ?_⟩, rfl⟩
  have hle := hfirst _ (mem_rankedCandidates.mpr ⟨other, hother, hone, rfl⟩)
  simp only [compareSuggestions, Ordering.isLE_then_iff_or, Nat.compare_eq_lt,
    Nat.compare_eq_eq] at hle
  exact hle

lemma head_rankedCandidates_eq_none :
    (sortBy compareSuggestions (rankedCandidates term candidates)).head?.map (·.1) = none ↔
      ∀ candidate ∈ candidates, levenshtein (utf8 term) (utf8 candidate.term) ≠ 1 := by
  rw [Option.map_eq_none_iff, head?_eq_none_iff]
  constructor
  · intro hnil candidate hcandidate hone
    have hmem : (candidate.term, candidate.documentFrequency) ∈
        sortBy compareSuggestions (rankedCandidates term candidates) :=
      mem_sortBy.mpr (mem_rankedCandidates.mpr ⟨candidate, hcandidate, hone, rfl⟩)
    rw [hnil] at hmem
    cases hmem
  · intro hnone
    refine eq_nil_iff_forall_not_mem.mpr fun entry hentry => ?_
    obtain ⟨candidate, hcandidate, hone, -⟩ := mem_rankedCandidates.mp (mem_sortBy.mp hentry)
    exact hnone candidate hcandidate hone

/-- The candidates of a valid list are ranked alike in every order. -/
theorem sortBy_rankedCandidates_perm {candidates' : List TypoVocabularyCandidate}
    (h : candidates.Perm candidates') :
    sortBy compareSuggestions (rankedCandidates term candidates) =
      sortBy compareSuggestions (rankedCandidates term candidates') :=
  sortBy_eq_of_perm ((h.filter _).map _) fun _ _ _ _ => compareSuggestions_inj

/-- What a probe suggests for valid candidates. -/
theorem finalizeTypoSuggestion_eq (hprobe : prepareTypoSuggestion T query =
      typoPlan query .probe (some term) (some (term.take typoPrefixChars ++ ['%'])))
    (hterm : utf8Len term ≤ typoMaxTermBytes)
    (hvalid : ValidCandidates (term.take typoPrefixChars) candidates) :
    ∃ work ≤ typoMaxWorkUnits, finalizeTypoSuggestion T query candidates =
      .ok (resultFromPlan (prepareTypoSuggestion T query)
        ((sortBy compareSuggestions (rankedCandidates term candidates)).head?.map (·.1))
        candidates.length work) := by
  have hbound : candidates.length * (typoMaxTermBytes + 1) ≤ typoMaxWorkUnits :=
    le_trans (Nat.mul_le_mul_right _ hvalid.bounded) (by decide)
  obtain ⟨scan, hscan, hranked, hunits⟩ : ∃ final : TypoScan,
      candidates.foldlM (examineCandidate term (term.take typoPrefixChars)) ⟨[], [], 0⟩ =
        .ok final ∧ final.ranked = [] ++ rankedCandidates term candidates ∧
          final.workUnits ≤ typoMaxWorkUnits :=
    foldlM_examineCandidate hterm hvalid.valid hvalid.distinct nofun
      (by simpa using hbound)
  have hstrip : stripPercent (term.take typoPrefixChars ++ ['%']) =
      some (term.take typoPrefixChars) := by
    simp [stripPercent]
  refine ⟨scan.workUnits, hunits, ?_⟩
  rw [nil_append] at hranked
  simp only [finalizeTypoSuggestion, hprobe, bind_unit_ok_iff, rejectIf_ok]
  refine ⟨Nat.not_lt.mpr hvalid.bounded, ?_⟩
  simp only [typoPlan, ne_eq, not_true_eq_false, if_false, Option.bind_some, hstrip]
  rw [bind_ok_iff]
  exact ⟨scan, hscan, by rw [hranked]⟩

/-- Distance one is told exactly, and a probe suggests the best candidate at distance one, whatever
the order of the candidates. -/
theorem finalizeTypoSuggestion_exact :
    (∀ left right : Bytes, (oneEditApart left right).1 = true ↔ levenshtein left right = 1) ∧
    ∀ (T : CharTables) (query : Text), (prepareTypoSuggestion T query).disposition = .probe →
      ∃ term, (prepareTypoSuggestion T query).term = some term ∧
        ∀ candidates, ValidCandidates (term.take typoPrefixChars) candidates →
          ∃ result, finalizeTypoSuggestion T query candidates = .ok result ∧
            (∀ best, result.suggestedQuery = some best →
              ∃ candidate, IsBestCandidate term candidates candidate ∧ candidate.term = best) ∧
            (result.suggestedQuery = none ↔ ∀ candidate ∈ candidates,
              levenshtein (utf8 term) (utf8 candidate.term) ≠ 1) ∧
            ∀ candidates', candidates.Perm candidates' → ∃ result',
              finalizeTypoSuggestion T query candidates' = .ok result' ∧
                result'.suggestedQuery = result.suggestedQuery := by
  refine ⟨oneEditApart_iff, fun T query hdisposition => ?_⟩
  obtain ⟨term, hterm, hprobe⟩ := prepareTypoSuggestion_probe hdisposition
  have hbytes : utf8Len term ≤ typoMaxTermBytes := by
    simp only [isTypoTerm, Bool.and_eq_true, decide_eq_true_eq] at hterm
    exact hterm.1.1.1.1
  refine ⟨term, by rw [hprobe]; rfl, fun candidates hvalid => ?_⟩
  obtain ⟨work, -, hresult⟩ := finalizeTypoSuggestion_eq hprobe hbytes hvalid
  refine ⟨_, hresult, fun best hbest => head_rankedCandidates hbest,
    head_rankedCandidates_eq_none, fun candidates' hperm => ?_⟩
  · have hvalid' : ValidCandidates (term.take typoPrefixChars) candidates' :=
      ⟨hperm.length_eq ▸ hvalid.bounded,
        fun candidate h => hvalid.valid candidate (hperm.mem_iff.mpr h),
        (hperm.map _).nodup_iff.mp hvalid.distinct⟩
    obtain ⟨work', -, hresult'⟩ := finalizeTypoSuggestion_eq hprobe hbytes hvalid'
    refine ⟨_, hresult', ?_⟩
    simp only [resultFromPlan, sortBy_rankedCandidates_perm hperm]

/-- The candidates of the word `retrievel`. -/
theorem finalizeTypoSuggestion_retrievel :
    ∃ result, finalizeTypoSuggestion .latin "retrievel".toList
      [⟨"retriever".toList, 2⟩, ⟨"retrieval".toList, 7⟩, ⟨"retrieved".toList, 7⟩] = .ok result ∧
      ∀ best, result.suggestedQuery = some best → ∃ candidate, IsBestCandidate "retrievel".toList
        [⟨"retriever".toList, 2⟩, ⟨"retrieval".toList, 7⟩, ⟨"retrieved".toList, 7⟩] candidate ∧
          candidate.term = best := by
  obtain ⟨term, hterm, hspec⟩ := finalizeTypoSuggestion_exact.2 .latin "retrievel".toList
    (by decide +kernel)
  have hknown : (prepareTypoSuggestion .latin "retrievel".toList).term =
      some "retrievel".toList := by decide +kernel
  obtain rfl : "retrievel".toList = term := Option.some.inj (hknown.symm.trans hterm)
  obtain ⟨result, hresult, hbest, -⟩ :=
    hspec [⟨"retriever".toList, 2⟩, ⟨"retrieval".toList, 7⟩, ⟨"retrieved".toList, 7⟩]
      ⟨by decide, by decide +kernel, by decide +kernel⟩
  exact ⟨result, hresult, hbest⟩

end Kwiry
