import Mathlib.Algebra.Order.BigOperators.Group.List
import Kwiry.Plugin.PrefixProbe
import Kwiry.Plugin.Reconciliation
import Kwiry.Query.Typo

/-!
# Typo Prototype

`typo-prototype.ts`: a query of one plain word that has no literal hits is answered from the
vocabulary of the index. A statement selects the terms that begin like the word, a check refuses
rows that are no plain words, and the portable runtime chooses among what is left.
-/

namespace Kwiry.Plugin.TypoPrototype

open Foundations List
open Cache (utf16Len)

/-! ## §1 The vocabulary -/

structure Generation where
  id : Text
  /-- the tokens of each chunk, by column -/
  chunks : List (Text → List Text)
  bounded : chunks.length ≤ maxIndexChunks

def vocabularyColumns : List Text :=
  ["filename".toList, "stem".toList, "aliases".toList, "title".toList, "heading_text".toList,
    "content".toList]

namespace Generation

/-- `doc` of a term and a column; the vocabulary has a row for them where it is not zero. -/
def doc (g : Generation) (col term : Text) : ℕ :=
  g.chunks.countP fun chunk => term ∈ chunk col

def terms (g : Generation) : List Text :=
  (g.chunks.flatMap fun chunk => vocabularyColumns.flatMap chunk).dedup

def documentFrequency (g : Generation) (term : Text) : ℕ :=
  (vocabularyColumns.map fun col => g.doc col term).sum

end Generation

/-- `ORDER BY document_frequency DESC, term ASC` -/
def compareRows (left right : TypoVocabularyCandidate) : Ordering :=
  compareSuggestions (left.term, left.documentFrequency) (right.term, right.documentFrequency)

/-- The terms that are accepted, the most frequent first. -/
def rowsOf (g : Generation) (accept : Text → Bool) : List TypoVocabularyCandidate :=
  sortBy compareRows ((g.terms.filter accept).map fun term => ⟨term, g.documentFrequency term⟩)

/-- `VOCABULARY_SQL` with its parameters. -/
def vocabularySql (g : Generation) (pattern : Text) (maxTermBytes limit : ℕ) :
    List TypoVocabularyCandidate :=
  (rowsOf g fun term =>
    sqlLike '\\' pattern term && decide (utf8Len term ≤ maxTermBytes)).take limit

/-! ## §2 The prototype -/

/-- `BOUNDS` -/
def suggestionBounds : TypoSuggestionBounds where
  prefixChars := 4
  maxTermBytes := 48
  maxVocabularyCandidates := 40
  maxCandidateBytes := 96
  maxEditDistance := 1
  maxOutputSuggestions := 1
  maxWorkUnits := 3840

/-- `/^[a-z]{low,high}$/u` -/
def isLetters (low high : ℕ) (text : Text) : Bool :=
  decide (low ≤ text.length) && decide (text.length ≤ high) && text.all isAsciiLower

def isBoundedText (text : Text) (maximum : ℕ) : Bool :=
  decide (0 < utf16Len text) && decide (utf16Len text ≤ maximum)

def isSuggestionPlan (plan : TypoSuggestionPlan) : Bool :=
  plan.schemaVersion = 1 &&
    plan.disposition ∈ [.probe, .explicitSyntaxBypass, .ineligible] &&
    isBoundedText plan.query 4096 && plan.bounds = suggestionBounds &&
    plan.limitation = typoPrefixLimitation &&
    if plan.disposition ≠ .probe then plan.term = none && plan.prefixPattern = none
    else match plan.term, plan.prefixPattern with
      | some term, some pattern =>
        isLetters 5 48 term && pattern.getLast? = some '%' && isLetters 4 4 pattern.dropLast &&
          pattern.dropLast.isPrefixOf term
      | _, _ => false

def isSuggestionResult (result : TypoSuggestionResult) : Bool :=
  result.schemaVersion = 1 &&
    result.disposition ∈ [.explicitSyntaxBypass, .ineligible, .suggestion, .noCandidate] &&
    isBoundedText result.originalQuery 4096 &&
    result.candidatesExamined ≤ suggestionBounds.maxVocabularyCandidates &&
    result.workUnits ≤ suggestionBounds.maxWorkUnits && result.bounds = suggestionBounds &&
    result.limitation = typoPrefixLimitation &&
    if result.disposition = .suggestion then result.suggestedQuery.any (isLetters 1 96)
    else result.suggestedQuery = none

def isVocabularyRow (row : TypoVocabularyCandidate) : Bool :=
  isLetters 1 96 row.term && row.documentFrequency ≤ Cache.maxSafeInteger &&
    1 ≤ row.documentFrequency

/-- A row is checked and its bytes are counted. -/
def checkRow (bytes : ℕ) (row : TypoVocabularyCandidate) : Except Text ℕ := do
  rejectIf (isVocabularyRow row = false) "SQLite returned an invalid prototype candidate".toList
  rejectIf (suggestionBounds.maxVocabularyCandidates * suggestionBounds.maxCandidateBytes <
    bytes + utf8Len row.term) "prototype vocabulary exceeded its memory bound".toList
  .ok (bytes + utf8Len row.term)

def vocabulary (g : Generation) (plan : TypoSuggestionPlan) :
    Except Text (List TypoVocabularyCandidate) := do
  match plan.disposition, plan.prefixPattern, plan.term with
  | .probe, some pattern, some _ => do
    let rows := vocabularySql g pattern plan.bounds.maxCandidateBytes
      plan.bounds.maxVocabularyCandidates
    rejectIf (plan.bounds.maxVocabularyCandidates < rows.length)
      "prototype vocabulary exceeded its candidate bound".toList
    let _ ← rows.foldlM checkRow 0
    .ok rows
  | _, _, _ => .error "invalid internal suggestion plan".toList

structure PrototypeContext (Hit : Type) where
  requireInitialized : Except Text Unit
  active : Option Generation
  search : Text → ℕ → Except Text (List Hit)

structure PrototypeResult (Hit : Type) where
  generation : Text
  /-- there is none for `literal_results` -/
  disposition : Option TypoSuggestionDisposition
  literalHits : List Hit
  suggestedQuery : Option Text
  (candidatesExamined workUnits : ℕ)
  bounds : TypoSuggestionBounds
  limitation : Text

def maxSearchHits : ℕ := 100

def invalidPrototypeData : Text := "Portable Rust returned invalid prototype data.".toList

section Prototype

variable {Hit : Type} (T : CharTables)

def prepareSuggestion (query : Text) : Except Text TypoSuggestionPlan := do
  rejectIf (isSuggestionPlan (prepareTypoSuggestion T query) = false) invalidPrototypeData
  .ok (prepareTypoSuggestion T query)

def finalizeSuggestion (query : Text) (candidates : List TypoVocabularyCandidate) :
    Except Text TypoSuggestionResult := do
  let suggestion ← finalizeTypoSuggestion T query candidates
  rejectIf (isSuggestionResult suggestion = false) invalidPrototypeData
  .ok suggestion

def runPrototype (context : PrototypeContext Hit) (query : Text) :
    Except Text (PrototypeResult Hit) := do
  context.requireInitialized
  match context.active with
  | none => .error "In-plugin lexical index is not ready.".toList
  | some active => do
    let plan ← prepareSuggestion T query
    let base : PrototypeResult Hit :=
      ⟨active.id, none, [], none, 0, 0, plan.bounds, plan.limitation⟩
    if plan.disposition = .explicitSyntaxBypass ∨ plan.disposition = .ineligible then
      .ok { base with disposition := some plan.disposition }
    else do
      let hits ← context.search query maxSearchHits
      if hits ≠ [] then .ok { base with literalHits := hits }
      else do
        let candidates ← vocabulary active plan
        let suggestion ← finalizeSuggestion T query candidates
        .ok
          { base with
            disposition := some suggestion.disposition
            suggestedQuery := suggestion.suggestedQuery
            candidatesExamined := suggestion.candidatesExamined
            workUnits := suggestion.workUnits
            bounds := suggestion.bounds
            limitation := suggestion.limitation }

end Prototype

/-! ## §3 Rows -/

section

variable {g : Generation}

instance : Std.TransCmp compareRows :=
  transCmp_comap compareSuggestions fun row : TypoVocabularyCandidate =>
    (row.term, row.documentFrequency)

lemma compareRows_inj {left right : TypoVocabularyCandidate}
    (h : compareRows left right = .eq) : left = right := by
  have hpair := compareSuggestions_inj h
  cases left
  cases right
  simpa using hpair

/-- Rows of terms that are accepted besides are left in their order. -/
theorem filter_rowsOf (g : Generation) (accept accept' : Text → Bool) :
    (rowsOf g accept).filter (fun row => accept' row.term) =
      rowsOf g fun term => accept term && accept' term := by
  refine Perm.eq_of_pairwise (fun a b _ _ hab hba =>
    compareRows_inj (Std.OrientedCmp.isLE_antisymm hab hba))
    ((pairwise_sortBy compareRows _).filter _) (pairwise_sortBy compareRows _) ?_
  refine ((sortBy_perm compareRows _).filter _).trans (.trans ?_ (sortBy_perm compareRows _).symm)
  rw [filter_map, filter_filter]
  simp only [Function.comp_def, Bool.and_comm]
  exact Perm.refl _

lemma mem_rowsOf {accept : Text → Bool} {row : TypoVocabularyCandidate} :
    row ∈ rowsOf g accept ↔ row.term ∈ g.terms ∧ accept row.term = true ∧
      row.documentFrequency = g.documentFrequency row.term := by
  simp only [rowsOf, mem_sortBy, mem_map, mem_filter]
  constructor
  · rintro ⟨term, ⟨hterm, haccept⟩, rfl⟩
    exact ⟨hterm, haccept, rfl⟩
  · rintro ⟨hterm, haccept, hfrequency⟩
    exact ⟨row.term, ⟨hterm, haccept⟩, by rw [← hfrequency]⟩

lemma nodup_rowsOf (g : Generation) (accept : Text → Bool) :
    ((rowsOf g accept).map (·.term)).Nodup := by
  refine (((sortBy_perm compareRows _).map _).nodup_iff).mpr ?_
  rw [map_map, Function.comp_def, map_id']
  exact (nodup_dedup _).filter _

lemma documentFrequency_bounds {term : Text} (h : term ∈ g.terms) :
    1 ≤ g.documentFrequency term ∧ g.documentFrequency term ≤ Cache.maxSafeInteger := by
  obtain ⟨chunk, hchunk, hterm⟩ := mem_flatMap.mp (mem_dedup.mp h)
  obtain ⟨col, hcol, hterm⟩ := mem_flatMap.mp hterm
  have hdoc : 1 ≤ g.doc col term :=
    countP_pos_iff.mpr ⟨chunk, hchunk, by simpa using hterm⟩
  refine ⟨hdoc.trans (single_le_sum (fun _ _ => Nat.zero_le _) _ (mem_map_of_mem hcol)), ?_⟩
  have hsum : g.documentFrequency term ≤ vocabularyColumns.length * maxIndexChunks := by
    have hbound := sum_le_card_nsmul (vocabularyColumns.map fun col => g.doc col term)
      maxIndexChunks (fun count hcount => by
        obtain ⟨col, -, rfl⟩ := mem_map.mp hcount
        exact countP_le_length.trans g.bounded)
    simpa [Generation.documentFrequency] using hbound
  exact hsum.trans (by decide)

lemma utf8Len_letters {word : Text} (h : word.all isAsciiLower = true) :
    utf8Len word = word.length := by
  induction word with
  | nil => rfl
  | cons c word ih =>
    rw [all_cons, Bool.and_eq_true] at h
    have hc : c.utf8Size = 1 := by
      simp only [isAsciiLower, Bool.and_eq_true, decide_eq_true_eq] at h
      exact Char.utf8Size_eq_one_iff.mpr (UInt32.le_trans h.1.2 (by decide))
    rw [utf8Len_cons, ih h.2, hc, length_cons, Nat.add_comm]

/-- The check refuses all rows for one that is no plain word. -/
theorem foldlM_checkRow {rows : List TypoVocabularyCandidate} {bytes : ℕ}
    (hbytes : bytes + rows.length * 96 ≤ 3840) :
    (∃ total, rows.foldlM checkRow bytes = .ok total) ↔
      ∀ row ∈ rows, isVocabularyRow row = true := by
  induction rows generalizing bytes with
  | nil => exact iff_of_true ⟨bytes, rfl⟩ (fun row hrow => absurd hrow not_mem_nil)
  | cons row rest ih =>
    rw [length_cons, Nat.add_mul, Nat.one_mul] at hbytes
    rw [forall_mem_cons, foldlM_cons]
    cases hrow : isVocabularyRow row with
    | false =>
      refine iff_of_false (fun htotal => ?_) fun hall => absurd hall.1 Bool.false_ne_true
      obtain ⟨total, htotal⟩ := htotal
      simp only [checkRow, hrow, bind_ok_iff, rejectIf_ok] at htotal
      obtain ⟨_, ⟨_, hok, _⟩, _⟩ := htotal
      exact hok trivial
    | true =>
      have hlength : utf8Len row.term ≤ 96 := by
        simp only [isVocabularyRow, isLetters, Bool.and_eq_true, decide_eq_true_eq] at hrow
        exact (utf8Len_letters hrow.1.1.2).trans_le hrow.1.1.1.2
      have hstep : checkRow bytes row = .ok (bytes + utf8Len row.term) := by
        simp only [checkRow, hrow, bind_unit_ok_iff, rejectIf_ok]
        refine ⟨by simp, ?_, trivial⟩
        change ¬ 3840 < bytes + utf8Len row.term
        omega
      have hrest : bytes + utf8Len row.term + rest.length * 96 ≤ 3840 := by omega
      rw [hstep, eq_self, true_and, ← ih hrest]
      rfl

end

/-! ## §4 Answers -/

/-- A plain word of the vocabulary that a probe may be answered with. -/
def isPlainWord (lead term : Text) : Bool :=
  term.all isAsciiLower && decide (utf8Len term ≤ typoMaxCandidateBytes) && lead.isPrefixOf term

/-- The most frequent plain words that begin with the first letters of a term. -/
def plainWords (g : Generation) (term : Text) : List TypoVocabularyCandidate :=
  (rowsOf g (isPlainWord (term.take typoPrefixChars))).take typoMaxVocabularyCandidates

/-- The rows that the statement gives for a term. -/
def selectedRows (g : Generation) (term : Text) : List TypoVocabularyCandidate :=
  vocabularySql g (term.take typoPrefixChars ++ ['%']) typoMaxCandidateBytes
    typoMaxVocabularyCandidates

/-- The best word at distance one, if there is one. -/
def Suggests {Hit : Type} (g : Generation) (term : Text) (result : PrototypeResult Hit) : Prop :=
  (result.disposition = some .suggestion ∧ ∃ best, IsBestCandidate term (plainWords g term) best ∧
      result.suggestedQuery = some best.term) ∨
    (result.disposition = some .noCandidate ∧ result.suggestedQuery = none ∧
      ∀ word ∈ plainWords g term, levenshtein (utf8 term) (utf8 word.term) ≠ 1)

section Answers

variable {g : Generation} {T : CharTables} {query term : Text}

lemma plain_of_isAsciiLower {c : Char} (h : isAsciiLower c = true) :
    c.toLower = c ∧ likeEscaped c = [c] := by
  simp only [isAsciiLower, Bool.and_eq_true, decide_eq_true_eq] at h
  constructor
  · have hupper : ¬ (c.val ≥ 'A'.val ∧ c.val ≤ 'Z'.val) := fun hupper =>
      absurd (UInt32.le_trans h.1 hupper.2) (by decide)
    exact dif_neg hupper
  · have hspecial : c ∉ ['\\', '%', '_'] := by
      intro hmem
      have hlow : ∀ d ∈ ['\\', '%', '_'], ¬ 'a' ≤ d := by decide
      exact hlow c hmem h.1
    rw [likeEscaped, if_neg hspecial]

/-- What begins with a word of plain letters is found by its pattern. -/
theorem sqlLike_letters {lead word : Text} (hlead : lead.all isAsciiLower = true)
    (hword : word.all isAsciiLower = true) :
    sqlLike '\\' (lead ++ ['%']) word = lead.isPrefixOf word := by
  rw [all_eq_true] at hlead hword
  have hescaped : lead.flatMap likeEscaped = lead := by
    rw [flatMap_congr fun c hc => (plain_of_isAsciiLower (hlead c hc)).2]
    exact flatMap_singleton' lead
  rw [← sqlLike_prefixPattern (fun c hc => (plain_of_isAsciiLower (hlead c hc)).1)
    (fun c hc => (plain_of_isAsciiLower (hword c hc)).1), hescaped]

lemma take_filter_of_take {A : Type*} {p : A → Bool} {items : List A} {n : ℕ}
    (h : ∀ a ∈ items.take n, p a = true) : (items.filter p).take n = items.take n := by
  induction items generalizing n with
  | nil => rfl
  | cons a rest ih =>
    cases n with
    | zero => rfl
    | succ n =>
      rw [take_succ_cons, forall_mem_cons] at h
      rw [filter_cons_of_pos h.1, take_succ_cons, take_succ_cons, ih h.2]

lemma utf16Len_pos (h : query ≠ []) : 0 < utf16Len query := by
  cases query with
  | nil => exact absurd rfl h
  | cons c query =>
    change 0 < (if c.toNat < 0x10000 then 1 else 2) + utf16Len query
    split
    · omega
    · omega

lemma isTypoTerm_bounds (h : isTypoTerm query term = true) :
    utf8Len term ≤ typoMaxTermBytes ∧ 5 ≤ term.length ∧ term.all isAsciiLower = true := by
  simp only [isTypoTerm, Bool.and_eq_true, decide_eq_true_eq] at h
  exact ⟨h.1.1.1.1, h.1.1.1.2, h.1.1.2⟩

section Probe

variable (hterm : isTypoTerm query term = true)

include hterm

lemma lead_letters : (term.take typoPrefixChars).all isAsciiLower = true :=
  all_eq_true.mpr fun c hc =>
    all_eq_true.mp (isTypoTerm_bounds hterm).2.2 c (mem_of_mem_take hc)

lemma selectedRows_eq (h : ∀ row ∈ selectedRows g term, row.term.all isAsciiLower = true) :
    selectedRows g term = plainWords g term := by
  rw [selectedRows, vocabularySql, ← take_filter_of_take h,
    filter_rowsOf g _ fun word => word.all isAsciiLower, plainWords]
  congr 2
  funext word
  cases hword : word.all isAsciiLower with
  | false => simp only [isPlainWord, hword, Bool.and_false, Bool.false_and]
  | true =>
    rw [sqlLike_letters (lead_letters hterm) hword, isPlainWord, hword, Bool.true_and,
      Bool.and_true, Bool.and_comm]

lemma isVocabularyRow_iff {row : TypoVocabularyCandidate} (hrow : row ∈ selectedRows g term) :
    isVocabularyRow row = true ↔ row.term.all isAsciiLower = true := by
  obtain ⟨hterms, haccept, hfrequency⟩ := mem_rowsOf.mp (mem_of_mem_take hrow)
  rw [Bool.and_eq_true, decide_eq_true_eq] at haccept
  obtain ⟨hpositive, hsafe⟩ := documentFrequency_bounds hterms
  rw [← hfrequency] at hpositive hsafe
  constructor
  · intro h
    simp only [isVocabularyRow, isLetters, Bool.and_eq_true] at h
    exact h.1.1.2
  · intro h
    have hlead := haccept.1
    rw [sqlLike_letters (lead_letters hterm) h, isPrefixOf_iff_prefix] at hlead
    have hlength := hlead.length_le
    rw [length_take] at hlength
    have hfive := (isTypoTerm_bounds hterm).2.1
    have hbytes := utf8Len_letters h
    have hmax : utf8Len row.term ≤ 96 := haccept.2
    simp only [isVocabularyRow, isLetters, Bool.and_eq_true, decide_eq_true_eq]
    unfold typoPrefixChars at hlength
    exact ⟨⟨⟨⟨by omega, by omega⟩, h⟩, hsafe⟩, hpositive⟩

/-- The vocabulary is read where all its first rows are plain words, and refused for any other. -/
theorem vocabulary_ok_iff {rows : List TypoVocabularyCandidate} :
    vocabulary g (typoPlan query .probe (some term) (some (term.take typoPrefixChars ++ ['%']))) =
        .ok rows ↔
      rows = selectedRows g term ∧ ∀ row ∈ rows, row.term.all isAsciiLower = true := by
  have hcount : (selectedRows g term).length ≤ typoMaxVocabularyCandidates :=
    length_take_le _ _
  have hcheck : (∃ total, (selectedRows g term).foldlM checkRow 0 = .ok total) ↔
      ∀ row ∈ selectedRows g term, row.term.all isAsciiLower = true := by
    rw [foldlM_checkRow (by rw [typoMaxVocabularyCandidates] at hcount; omega)]
    exact forall₂_congr fun row hrow => isVocabularyRow_iff hterm hrow
  have hread : vocabulary g
      (typoPlan query .probe (some term) (some (term.take typoPrefixChars ++ ['%']))) = .ok rows ↔
        ¬ typoMaxVocabularyCandidates < (selectedRows g term).length ∧
          ∃ total, (selectedRows g term).foldlM checkRow 0 = .ok total ∧
            Except.ok (selectedRows g term) = (.ok rows : Except Text _) :=
    bind_unit_ok_iff.trans (and_congr rejectIf_ok bind_ok_iff)
  rw [hread]
  constructor
  · rintro ⟨-, total, htotal, hrows⟩
    obtain rfl := Except.ok.inj hrows
    exact ⟨rfl, hcheck.mp ⟨total, htotal⟩⟩
  · rintro ⟨rfl, hall⟩
    obtain ⟨total, htotal⟩ := hcheck.mpr hall
    exact ⟨Nat.not_lt.mpr hcount, total, htotal, rfl⟩

lemma validCandidates_plainWords (g : Generation) :
    ValidCandidates (term.take typoPrefixChars) (plainWords g term) where
  bounded := length_take_le _ _
  valid := by
    intro word hword
    obtain ⟨hterms, haccept, hfrequency⟩ := mem_rowsOf.mp (mem_of_mem_take hword)
    have hpositive := (documentFrequency_bounds hterms).1
    rw [← hfrequency] at hpositive
    simp only [isPlainWord, Bool.and_eq_true] at haccept
    obtain ⟨⟨hletters, hbytes⟩, hlead⟩ := haccept
    have hlength := (List.isPrefixOf_iff_prefix.mp hlead).length_le
    rw [length_take] at hlength
    have hfive := (isTypoTerm_bounds hterm).2.1
    have hnonempty : word.term ≠ [] := by
      rintro hnil
      rw [hnil, length_nil, typoPrefixChars] at hlength
      omega
    simp only [isTypoCandidate, hletters, hbytes, hlead, Bool.and_true, Bool.and_eq_true,
      decide_eq_true_eq]
    exact ⟨by omega, hnonempty⟩
  distinct := (nodup_rowsOf g _).sublist ((take_sublist _ _).map _)

section

variable (hprobe : prepareTypoSuggestion T query =
  typoPlan query .probe (some term) (some (term.take typoPrefixChars ++ ['%'])))

include hprobe

lemma prepareSuggestion_probe :
    prepareSuggestion T query = .ok (prepareTypoSuggestion T query) := by
  have hbounds : ¬ (query = [] ∨ maxQueryBytes < utf8Len query) := by
    intro hbounds
    rw [prepareTypoSuggestion, if_pos hbounds] at hprobe
    cases hprobe
  rw [not_or, not_lt] at hbounds
  obtain ⟨hbytes, hfive, hletters⟩ := isTypoTerm_bounds hterm
  have hquery : isBoundedText query 4096 = true := by
    simp only [isBoundedText, Bool.and_eq_true, decide_eq_true_eq]
    exact ⟨utf16Len_pos hbounds.1, (utf16Len_le_utf8Len query).trans hbounds.2⟩
  have hlength := utf8Len_letters hletters
  have hterm' : isLetters 5 48 term = true := by
    simp only [isLetters, Bool.and_eq_true, decide_eq_true_eq]
    exact ⟨⟨hfive, hlength ▸ hbytes⟩, hletters⟩
  have hlead : isLetters 4 4 (term.take typoPrefixChars) = true := by
    simp only [isLetters, Bool.and_eq_true, decide_eq_true_eq, length_take, typoPrefixChars]
    exact ⟨⟨by omega, by omega⟩, lead_letters hterm⟩
  have hplan : isSuggestionPlan (prepareTypoSuggestion T query) = true := by
    rw [hprobe]
    simp [isSuggestionPlan, typoPlan, hquery, hterm', hlead, take_prefix]
    exact ⟨rfl, rfl⟩
  simp only [prepareSuggestion, hplan, bind_unit_ok_iff, rejectIf_ok]
  exact ⟨Bool.false_ne_true.symm, trivial⟩

lemma finalizeSuggestion_plainWords (g : Generation) :
    ∃ result, finalizeSuggestion T query (plainWords g term) = .ok result ∧
      result.disposition = (if result.suggestedQuery.isSome then .suggestion else .noCandidate) ∧
      result.suggestedQuery = (sortBy compareSuggestions
        (rankedCandidates term (plainWords g term))).head?.map (·.1) := by
  have hvalid := validCandidates_plainWords hterm g
  obtain ⟨work, hwork, hfinal⟩ :=
    finalizeTypoSuggestion_eq hprobe (isTypoTerm_bounds hterm).1 hvalid
  have hprepared := prepareSuggestion_probe hterm hprobe
  simp only [prepareSuggestion, bind_unit_ok_iff, rejectIf_ok] at hprepared
  have hquery : isBoundedText query 4096 = true := by
    have hplan := hprepared.1
    rw [hprobe] at hplan
    simp only [isSuggestionPlan, Bool.and_eq_true, Bool.not_eq_false] at hplan
    exact hplan.1.1.1.2
  generalize hsuggested : (sortBy compareSuggestions
    (rankedCandidates term (plainWords g term))).head?.map (·.1) = suggested at hfinal
  have hword : ∀ word, suggested = some word → isLetters 1 96 word = true := by
    rintro word rfl
    obtain ⟨candidate, hbest, rfl⟩ := head_rankedCandidates hsuggested
    have hok := hvalid.valid candidate hbest.mem
    simp only [isTypoCandidate, Bool.and_eq_true, decide_eq_true_eq] at hok
    have hlength := utf8Len_letters hok.1.2
    simp only [isLetters, Bool.and_eq_true, decide_eq_true_eq]
    exact ⟨⟨length_pos_iff.mpr hok.1.1.1.2, hlength ▸ hok.1.1.2⟩, hok.1.2⟩
  have hcount := hvalid.bounded
  have hresult : isSuggestionResult (resultFromPlan (prepareTypoSuggestion T query) suggested
      (plainWords g term).length work) = true := by
    rw [hprobe]
    cases suggested with
    | none =>
      simp [isSuggestionResult, resultFromPlan, typoPlan, hquery]
      exact ⟨⟨⟨rfl, hcount⟩, hwork⟩, rfl⟩
    | some word =>
      simp [isSuggestionResult, resultFromPlan, typoPlan, hquery, hword word rfl]
      exact ⟨⟨⟨rfl, hcount⟩, hwork⟩, rfl⟩
  refine ⟨resultFromPlan (prepareTypoSuggestion T query) suggested (plainWords g term).length work,
    ?_, ?_, rfl⟩
  · simp only [finalizeSuggestion, hfinal, bind_ok_iff, rejectIf_ok]
    exact ⟨_, rfl, (), by simp [hresult], rfl⟩
  · rw [hprobe]
    rfl

end

end Probe

/-- A probe without literal hits is answered with the best of the plain words exactly where no other
term is among the first rows of the vocabulary. -/
theorem runPrototype_suggests_iff {Hit : Type} (T : CharTables) (context : PrototypeContext Hit)
    (g : Generation) (query term : Text) (hready : context.requireInitialized = .ok ())
    (hactive : context.active = some g)
    (hprobe : (prepareTypoSuggestion T query).disposition = .probe)
    (hterm : (prepareTypoSuggestion T query).term = some term)
    (hhits : context.search query maxSearchHits = .ok []) :
    (∃ result, runPrototype T context query = .ok result ∧ Suggests g term result) ↔
      ∀ row ∈ selectedRows g term, row.term.all isAsciiLower = true := by
  obtain ⟨known, hknown, hplan⟩ := prepareTypoSuggestion_probe hprobe
  obtain rfl : known = term := by
    rw [hplan] at hterm
    exact Option.some.inj hterm
  have hprepare := prepareSuggestion_probe hknown hplan
  have hrun : ∀ result, runPrototype T context query = .ok result ↔
      ∃ candidates, vocabulary g (prepareTypoSuggestion T query) = .ok candidates ∧
        ∃ suggestion, finalizeSuggestion T query candidates = .ok suggestion ∧
          result = ⟨g.id, some suggestion.disposition, [], suggestion.suggestedQuery,
            suggestion.candidatesExamined, suggestion.workUnits, suggestion.bounds,
            suggestion.limitation⟩ := by
    intro result
    have hnot : ¬ ((prepareTypoSuggestion T query).disposition = .explicitSyntaxBypass ∨
        (prepareTypoSuggestion T query).disposition = .ineligible) := by
      rw [hprobe]
      decide
    simp only [runPrototype, hready, hactive, bind_ok_iff, Except.ok.injEq, exists_eq_left',
      hprepare, if_neg hnot, hhits, ne_eq, not_true_eq_false, if_false, eq_comm (a := result)]
    exact ⟨fun ⟨_, _, h⟩ => h, fun h => ⟨(), trivial, h⟩⟩
  constructor
  · rintro ⟨result, hresult, -⟩
    obtain ⟨candidates, hcandidates, -⟩ := (hrun result).mp hresult
    rw [hplan] at hcandidates
    obtain ⟨rfl, hall⟩ := (vocabulary_ok_iff hknown).mp hcandidates
    exact hall
  · intro hall
    have hrows := selectedRows_eq hknown hall
    obtain ⟨suggestion, hsuggestion, hdisposition, hbest⟩ :=
      finalizeSuggestion_plainWords hknown hplan g
    have hcandidates : vocabulary g (prepareTypoSuggestion T query) = .ok (plainWords g known) := by
      rw [hplan]
      exact (vocabulary_ok_iff hknown).mpr ⟨hrows.symm, hrows ▸ hall⟩
    refine ⟨_, (hrun _).mpr ⟨_, hcandidates, suggestion, hsuggestion, rfl⟩, ?_⟩
    cases hsuggested : suggestion.suggestedQuery with
    | none =>
      rw [hsuggested] at hdisposition hbest
      exact .inr ⟨congrArg some hdisposition, rfl, head_rankedCandidates_eq_none.mp hbest.symm⟩
    | some best =>
      rw [hsuggested] at hdisposition hbest
      obtain ⟨candidate, hcandidate, rfl⟩ := head_rankedCandidates hbest.symm
      exact .inl ⟨congrArg some hdisposition, candidate, hcandidate, rfl⟩

/-- A token with a digit among the first rows is enough for a probe to fail. -/
theorem runPrototype_fails :
    ∃ (context : PrototypeContext Unit) (g : Generation),
      context.requireInitialized = .ok () ∧ context.active = some g ∧
        (prepareTypoSuggestion .latin "retrievel".toList).disposition = .probe ∧
        context.search "retrievel".toList maxSearchHits = .ok [] ∧
        ∀ result, runPrototype .latin context "retrievel".toList ≠ .ok result := by
  let chunk : Text → List Text := fun col =>
    if col = "content".toList then ["retr1".toList, "retrieval".toList] else []
  let g : Generation := ⟨[], [chunk], by decide⟩
  refine ⟨⟨.ok (), some g, fun _ _ => .ok []⟩, g, rfl, rfl, by decide +kernel, rfl,
    fun result => ?_⟩
  have hfails : (runPrototype .latin (⟨.ok (), some g, fun _ _ => .ok []⟩ : PrototypeContext Unit)
      "retrievel".toList).toBool = false := by decide +kernel
  intro hresult
  rw [hresult] at hfails
  cases hfails

/-- Words of other kinds that are not among the first rows do no harm. -/
theorem runPrototype_suggests_retrieval :
    ∃ (context : PrototypeContext Unit) (g : Generation) (result : PrototypeResult Unit),
      runPrototype .latin context "retrievel".toList = .ok result ∧
        Suggests g "retrievel".toList result := by
  let chunk : Text → List Text := fun col =>
    if col = "content".toList then ["x1".toList, "retrieval".toList] else []
  let g : Generation := ⟨[], [chunk], by decide⟩
  refine ⟨⟨.ok (), some g, fun _ _ => .ok []⟩, g, ?_⟩
  exact (runPrototype_suggests_iff .latin ⟨.ok (), some g, fun _ _ => .ok []⟩ g "retrievel".toList
    "retrievel".toList rfl rfl (by decide +kernel) (by decide +kernel) rfl).mpr (by decide +kernel)

end Answers

end Kwiry.Plugin.TypoPrototype
