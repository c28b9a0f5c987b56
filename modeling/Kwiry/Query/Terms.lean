import Kwiry.Identifiers
import Kwiry.Query.Validation

/-!
# The Terms of a Query Text

What the passes over a query text plan. Between the identifiers, each word is trimmed, folded and
cut into runs of term characters; the folding is done by then, so normalizing a run again changes
nothing but its ends.
-/

namespace Kwiry

open Foundations List

variable {T : CharTables}

/-! ## §1 Normalized texts -/

variable {authored folded n query r value : Text}

lemma normalizeRaw_eq_some (h : normalizeRaw T value = some n) :
    n = T.fold (collapseWhitespace value) ∧ n ≠ [] ∧ utf8Len n ≤ maxNormalizedExactBytes := by
  unfold normalizeRaw at h
  simp only at h
  split at h
  · cases h
  · rename_i hbound
    cases h
    simp only [Bool.or_eq_true, decide_eq_true_eq, List.isEmpty_iff, not_or, not_lt] at hbound
    exact ⟨rfl, hbound.1, hbound.2⟩

lemma normalizeRaw_of_word {w : Text} (hne : w ≠ []) (hall : ∀ c ∈ w, isWhitespace c = false)
    (hfold : T.fold w ≠ []) (hbound : utf8Len (T.fold w) ≤ maxNormalizedExactBytes) :
    normalizeRaw T w = some (T.fold w) := by
  unfold normalizeRaw
  simp only [collapse_word hne hall]
  rw [if_neg]
  simp only [Bool.or_eq_true, decide_eq_true_eq, List.isEmpty_iff, not_or, not_lt]
  exact ⟨hfold, hbound⟩

@[simp] lemma normalizeRaw_nil : normalizeRaw T [] = none := by
  simp [normalizeRaw, collapseWhitespace, splitWhitespace, joinWith]

/-- Characters of a normalized text are folded. -/
lemma foldChar_of_normalized (hT : T.Lawful) (h : normalizeRaw T value = some n) {c : Char}
    (hc : c ∈ n) : T.foldChar c = [c] := by
  obtain ⟨rfl, -⟩ := normalizeRaw_eq_some h
  rw [CharTables.fold_eq_flatMap] at hc
  obtain ⟨d, -, hd⟩ := mem_flatMap.mp hc
  exact hT.foldChar_foldChar d c hd

lemma fold_of_fixed {t : Text} (h : ∀ c ∈ t, T.foldChar c = [c]) : T.fold t = t := by
  rw [CharTables.fold_eq_flatMap]
  exact (flatMap_congr h).trans (flatMap_singleton' t)

/-! ## §2 The components of a word -/

lemma alphanumeric_not_whitespace (hT : T.Lawful) {c : Char} (h : T.isAlphanumeric c = true) :
    isWhitespace c = false := by
  by_contra hspace
  have htoken := hT.token_of_whitespace c (Bool.not_eq_false _ ▸ hspace)
  simp [CharTables.isTokenChar, h] at htoken

lemma termChar_not_whitespace (hT : T.Lawful) {c : Char} (h : isTermChar T c = true) :
    isWhitespace c = false := by
  simp only [isTermChar, Bool.or_eq_true, decide_eq_true_eq] at h
  rcases h with h | rfl
  · exact alphanumeric_not_whitespace hT h
  · decide +kernel

lemma utf8Len_le_of_part {s t : Text} (h : s <:+: t) : utf8Len s ≤ utf8Len t := by
  obtain ⟨before, after, rfl⟩ := h
  simp only [utf8Len_append]
  omega

lemma trimNonAlphanumeric_part (t : Text) : trimNonAlphanumeric T t <:+: t := by
  obtain ⟨before, after, hsplit, -⟩ := trimMatches_spec (fun c => !T.isAlphanumeric c) t
  exact ⟨before, after, hsplit.symm⟩

lemma part_of_mem_runs {p : Char → Bool} {t : Text} (h : r ∈ runs p t) :
    r <:+: t ∧ r ≠ [] ∧ ∀ c ∈ r, p c = true := by
  obtain ⟨before, after, rfl, hne, hall, -⟩ := mem_runs_iff.mp h
  exact ⟨⟨before, after, rfl⟩, hne, hall⟩

/-- Normalizing a run of a normalized text trims it. -/
theorem normalizeToken_of_run (hT : T.Lawful) (hfolded : normalizeRaw T value = some folded)
    (hr : r ∈ runs (isTermChar T) folded) :
    normalizeToken T r =
      if trimNonAlphanumeric T r = [] then none else some (trimNonAlphanumeric T r) := by
  obtain ⟨hpiece, -, hall⟩ := part_of_mem_runs hr
  have hpart := trimNonAlphanumeric_part (T := T) r
  unfold normalizeToken
  split
  · rename_i hnil
    rw [hnil, normalizeRaw_nil]
  · rename_i hne
    have hfixed : T.fold (trimNonAlphanumeric T r) = trimNonAlphanumeric T r :=
      fold_of_fixed fun c hc =>
        foldChar_of_normalized hT hfolded (hpiece.subset (hpart.subset hc))
    have hbound := (normalizeRaw_eq_some hfolded).2.2
    rw [normalizeRaw_of_word hne, hfixed]
    · exact fun c hc => termChar_not_whitespace hT (hall c (hpart.subset hc))
    · rwa [hfixed]
    · rw [hfixed]
      exact (utf8Len_le_of_part (hpart.trans hpiece)).trans hbound

lemma analyzedComponents_eq (hT : T.Lawful)
    (h : normalizeRaw T (trimNonAlphanumeric T authored) = some folded) :
    analyzedComponents T authored =
      ((runs (isTermChar T) folded).map (trimNonAlphanumeric T)).filter (· ≠ []) := by
  have hempty : ∀ pieces : List Text, pieces.filterMap (normalizeToken T) =
      (pieces.filter (· ≠ [])).filterMap (normalizeToken T) := by
    intro pieces
    rw [filterMap_filter]
    refine filterMap_congr fun piece _ => ?_
    by_cases hpiece : piece = []
    · subst hpiece
      simp [normalizeToken, trimNonAlphanumeric, trimMatches]
    · simp [hpiece]
  rw [analyzedComponents, h]
  simp only
  rw [hempty, filter_splitOnP, filter_map, ← filterMap_eq_map, filterMap_filter]
  refine filterMap_congr fun r hr => ?_
  rw [normalizeToken_of_run hT h hr]
  by_cases hnil : trimNonAlphanumeric T r = [] <;> simp [hnil]

/-- The shape of an analyzed term. -/
structure IsTerm (T : CharTables) (n : Text) : Prop where
  nonempty : n ≠ []
  chars : ∀ c ∈ n, isTermChar T c = true
  head : ∀ c ∈ n.head?, T.isAlphanumeric c = true
  last : ∀ c ∈ n.getLast?, T.isAlphanumeric c = true

lemma IsTerm.trim_self (h : IsTerm T n) : trimNonAlphanumeric T n = n :=
  trimMatches_eq_self (fun c hc => by simp [h.head c hc]) (fun c hc => by simp [h.last c hc])

lemma isTerm_of_mem_components (hT : T.Lawful) (h : n ∈ analyzedComponents T authored) :
    IsTerm T n ∧ ∃ folded, normalizeRaw T (trimNonAlphanumeric T authored) = some folded ∧
      n <:+: folded := by
  cases hfolded : normalizeRaw T (trimNonAlphanumeric T authored) with
  | none =>
    rw [analyzedComponents, hfolded] at h
    cases h
  | some folded =>
    rw [analyzedComponents_eq hT hfolded] at h
    obtain ⟨hmem, hne⟩ := mem_filter.mp h
    obtain ⟨r, hr, rfl⟩ := mem_map.mp hmem
    obtain ⟨hpiece, -, hall⟩ := part_of_mem_runs hr
    have hpart := trimNonAlphanumeric_part (T := T) r
    obtain ⟨-, -, -, -, -, hhead, hlast⟩ := trimMatches_spec (fun c => !T.isAlphanumeric c) r
    refine ⟨⟨by simpa using hne, fun c hc => hall c (hpart.subset hc), ?_, ?_⟩, folded, rfl,
      hpart.trans hpiece⟩
    · intro c hc
      simpa using hhead c hc
    · intro c hc
      simpa using hlast c hc

lemma mem_components_of_isTerm (hT : T.Lawful) (h : normalizeToken T authored = some n)
    (hn : IsTerm T n) : n ∈ analyzedComponents T authored := by
  rw [analyzedComponents_eq hT h, runs_of_all hn.nonempty hn.chars]
  simp [hn.trim_self, hn.nonempty]

/-! ## §3 The planned terms -/

variable {t : PlannedTerm}

lemma mem_pushTerm {planned : List PlannedTerm} {term : PlannedTerm} :
    t ∈ pushTerm planned term ↔ t ∈ planned ∨ t = term := by
  unfold pushTerm
  split
  · rename_i hmem
    constructor
    · exact .inl
    · rintro (h | rfl)
      · exact h
      · exact hmem
  · rw [mem_append, mem_singleton]

lemma foldl_mem_iff {S A : Type*} {step : List S → A → List S} (new : A → S → Prop)
    (hstep : ∀ acc a s, s ∈ step acc a ↔ s ∈ acc ∨ new a s) (items : List A) (acc : List S) (s : S) :
    s ∈ items.foldl step acc ↔ s ∈ acc ∨ ∃ a ∈ items, new a s := by
  induction items generalizing acc with
  | nil => simp
  | cons a rest ih =>
    rw [foldl_cons, ih, hstep]
    simp only [mem_cons, exists_eq_or_imp, or_assoc]

/-- A component of some word of a text. -/
def IsComponentOf (T : CharTables) (source n : Text) : Prop :=
  ∃ authored ∈ splitWhitespace source, n ∈ analyzedComponents T authored

lemma mem_pushAnalyzedTerms {source : Text} {planned : List PlannedTerm} :
    t ∈ pushAnalyzedTerms T source planned ↔
      t ∈ planned ∨ t.2 = .analyzedText ∧ IsComponentOf T source t.1 := by
  unfold pushAnalyzedTerms
  rw [foldl_mem_iff (fun authored s => ∃ n ∈ analyzedComponents T authored,
    s = (n, .analyzedText)) (fun acc authored s =>
      foldl_mem_iff (fun n s => s = (n, .analyzedText)) (fun _ _ _ => mem_pushTerm) _ acc s)]
  refine or_congr_right ⟨?_, ?_⟩
  · rintro ⟨authored, hauthored, n, hn, rfl⟩
    exact ⟨rfl, authored, hauthored, hn⟩
  · rintro ⟨hprojection, authored, hauthored, hn⟩
    exact ⟨authored, hauthored, t.1, hn, Prod.ext rfl hprojection⟩

/-- The parts of a text from a cursor on, between the spans given. -/
def gapsBehind (query : Text) : ℕ → List ((ℕ × ℕ) × Text) → List Text
  | cursor, [] => [query.drop cursor]
  | cursor, span :: rest =>
    (query.take span.1.1).drop cursor :: gapsBehind query (span.1.1 + span.1.2) rest

/-- The parts of a text between its identifiers. -/
def identifierGaps (T : CharTables) (query : Text) : List Text :=
  gapsBehind query 0 (technicalIdentifierSpans T query)

lemma mem_planSpans {spans : List ((ℕ × ℕ) × Text)} {state : ℕ × List PlannedTerm} :
    t ∈ pushAnalyzedTerms T (query.drop (spans.foldl (planSpan T query) state).1)
        (spans.foldl (planSpan T query) state).2 ↔
      t ∈ state.2 ∨ (t.2 = .exactIdentifier ∧ ∃ span, (span, t.1) ∈ spans) ∨
        (t.2 = .analyzedText ∧ ∃ gap ∈ gapsBehind query state.1 spans, IsComponentOf T gap t.1) := by
  induction spans generalizing state with
  | nil => simp [mem_pushAnalyzedTerms, gapsBehind]
  | cons span rest ih =>
    rw [foldl_cons, ih]
    simp only [planSpan, mem_pushTerm, mem_pushAnalyzedTerms, gapsBehind, mem_cons,
      exists_eq_or_imp]
    obtain ⟨text, projection⟩ := t
    simp only [Prod.mk.injEq]
    constructor
    · rintro (((h | h) | ⟨rfl, rfl⟩) | ⟨h, s, hs⟩ | ⟨h, hgap⟩)
      · exact .inl h
      · exact .inr (.inr ⟨h.1, .inl h.2⟩)
      · exact .inr (.inl ⟨rfl, span.1, .inl rfl⟩)
      · exact .inr (.inl ⟨h, s, .inr hs⟩)
      · exact .inr (.inr ⟨h, .inr hgap⟩)
    · rintro (h | ⟨h, s, hs | hs⟩ | ⟨h, hgap | hgap⟩)
      · exact .inl (.inl (.inl h))
      · refine .inl (.inr ⟨?_, h⟩)
        rw [← hs]
      · exact .inr (.inl ⟨h, s, hs⟩)
      · exact .inl (.inl (.inr ⟨h, hgap⟩))
      · exact .inr (.inr ⟨h, hgap⟩)

lemma mem_plannedTerms :
    t ∈ plannedTerms T query ↔
      (t.2 = .exactIdentifier ∧ ∃ span, (span, t.1) ∈ technicalIdentifierSpans T query) ∨
        (t.2 = .analyzedText ∧ ∃ gap ∈ identifierGaps T query, IsComponentOf T gap t.1) := by
  unfold plannedTerms identifierGaps
  refine mem_planSpans.trans ?_
  simp

/-- A text without identifiers is one gap. -/
lemma identifierGaps_of_none (h : technicalIdentifierSpans T query = []) :
    identifierGaps T query = [query] := by
  rw [identifierGaps, h]
  rfl

/-! ## §4 Term intents -/

lemma getElem?_queryTermIntents (query : Text) (kind : QueryPlanKind) (i : ℕ) :
    (queryTermIntents T query kind)[i]? =
      (plannedTerms T query)[i]?.map fun t => plannedIntent (fallbackAnchors T query kind) (t, i) := by
  simp [queryTermIntents, getElem?_zipIdx, Function.comp_def]

@[simp] lemma length_queryTermIntents (query : Text) (kind : QueryPlanKind) :
    (queryTermIntents T query kind).length = (plannedTerms T query).length := by
  simp [queryTermIntents]

/-- The position of an intent is its index. -/
theorem index_queryTermIntents {kind : QueryPlanKind} {i : ℕ} {intent : QueryTermIntent}
    (hcount : (plannedTerms T query).length ≤ maxTermSupportProbes)
    (h : (queryTermIntents T query kind)[i]? = some intent) : intent.index = i := by
  rw [getElem?_queryTermIntents] at h
  obtain ⟨t, ht, rfl⟩ := Option.map_eq_some_iff.mp h
  have hlt := (List.getElem?_eq_some_iff.mp ht).1
  refine Nat.mod_eq_of_lt ?_
  unfold maxTermSupportProbes at hcount
  simp only
  omega

lemma mem_queryTermIntents {kind : QueryPlanKind} {intent : QueryTermIntent} :
    intent ∈ queryTermIntents T query kind ↔ ∃ i t, (plannedTerms T query)[i]? = some t ∧
      intent = plannedIntent (fallbackAnchors T query kind) (t, i) := by
  rw [mem_iff_getElem?]
  refine exists_congr fun i => ?_
  rw [getElem?_queryTermIntents, Option.map_eq_some_iff]
  simp only [eq_comm]

@[simp] lemma isAnchor_plannedIntent {fallback : List Text} {i : ℕ} :
    (plannedIntent fallback (t, i)).isAnchor = true ↔
      t.2 = .exactIdentifier ∨ t.1 ∈ fallback := by
  unfold QueryTermIntent.isAnchor plannedIntent
  simp only [decide_eq_true_eq]
  split <;> simp_all

end Kwiry
