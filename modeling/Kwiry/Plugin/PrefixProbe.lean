import Mathlib.Data.List.Infix
import Kwiry.Cache.Records
import Kwiry.Plugin.QueryAdapter
import Kwiry.Query.Expansion

/-!
# Prefix Probes

The plugin's way to the terms that extend a stem: a prefix probe is bound to a query over the
vocabulary of the FTS5 index, one row for a term and a column, and what the query gives is kept
unless it is the stem alone. The native engine takes the same terms from its dictionaries.
-/

namespace Kwiry

open Foundations List
open Cache (utf16Len maxSafeInteger)

/-! ## §1 The operator LIKE -/

/-- Letters that `LIKE` takes for the same: the case of ASCII letters does not count. -/
def likeEqual (c d : Char) : Bool :=
  c.toLower == d.toLower

/-- `LIKE` with an escape character: a percent sign stands for any text, an underscore for one
character, and what follows the escape character for itself. -/
def sqlLike (escape : Char) : Text → Text → Bool
  | [], source => source.isEmpty
  | c :: pattern, source =>
    if c = '%' then source.tails.any fun rest => sqlLike escape pattern rest
    else if c = escape then
      match pattern, source with
      | d :: pattern, e :: source => likeEqual d e && sqlLike escape pattern source
      | _, _ => false
    else
      match source with
      | [] => false
      | e :: source => (c = '_' || likeEqual c e) && sqlLike escape pattern source
termination_by pattern => pattern.length

/-- A text without capital ASCII letters. -/
def LowerCase (t : Text) : Prop :=
  ∀ c ∈ t, c.toLower = c

lemma sqlLike_cons (escape c : Char) (pattern source : Text) :
    sqlLike escape (c :: pattern) source =
      if c = '%' then source.tails.any fun rest => sqlLike escape pattern rest
      else if c = escape then
        match pattern, source with
        | d :: pattern, e :: source => likeEqual d e && sqlLike escape pattern source
        | _, _ => false
      else
        match source with
        | [] => false
        | e :: source => (c = '_' || likeEqual c e) && sqlLike escape pattern source := by
  rw [sqlLike.eq_def]
  rfl

lemma sqlLike_any (escape : Char) (source : Text) : sqlLike escape ['%'] source = true := by
  rw [sqlLike_cons, if_pos rfl, any_eq_true]
  exact ⟨[], (mem_tails [] source).mpr nil_suffix, by rw [sqlLike.eq_def]; rfl⟩

/-- The escaped form of a character in a pattern. -/
def likeEscaped (c : Char) : Text :=
  if c ∈ ['\\', '%', '_'] then ['\\', c] else [c]

lemma sqlLike_escaped (c : Char) (pattern source : Text) :
    sqlLike '\\' (likeEscaped c ++ pattern) source =
      match source with
      | [] => false
      | e :: source => likeEqual c e && sqlLike '\\' pattern source := by
  unfold likeEscaped
  split
  · rw [cons_append, singleton_append, sqlLike_cons, if_neg (by decide), if_pos rfl]
    cases source <;> rfl
  next hplain =>
    simp only [mem_cons, not_mem_nil, or_false, not_or] at hplain
    rw [singleton_append, sqlLike_cons, if_neg hplain.2.1, if_neg hplain.1]
    cases source with
    | nil => rfl
    | cons e source => simp [hplain.2.2]

lemma sqlLike_prefixPattern {stem term : Text} (hstem : LowerCase stem) (hterm : LowerCase term) :
    sqlLike '\\' (stem.flatMap likeEscaped ++ ['%']) term = stem.isPrefixOf term := by
  induction stem generalizing term with
  | nil => exact sqlLike_any '\\' term
  | cons c stem ih =>
    rw [flatMap_cons, append_assoc, sqlLike_escaped]
    cases term with
    | nil => rfl
    | cons e term =>
      have hsame : likeEqual c e = (c == e) := by
        rw [likeEqual, hstem c mem_cons_self, hterm e mem_cons_self]
      have hrest := ih (fun d hd => hstem d (mem_cons_of_mem _ hd))
        (fun d hd => hterm d (mem_cons_of_mem _ hd))
      show (likeEqual c e && sqlLike '\\' (stem.flatMap likeEscaped ++ ['%']) term) = _
      rw [hsame, hrest]
      rfl

/-! ## §2 The query -/

/-- A row of the vocabulary: a term in a column. -/
structure VocabRow where
  (term col : Text)

def prefixMetadataColumns : List Text :=
  ["filename".toList, "stem".toList, "aliases".toList, "title".toList]

/-- `in_metadata DESC, length(CAST(term AS blob)) ASC, term ASC` -/
def comparePrefixRows (left right : Text × Bool) : Ordering :=
  (compare right.2 left.2).then <|
  (compare (utf8Len left.1) (utf8Len right.1)).then <|
  compare left.1 right.1

/-- `PREFIX_EXPANSIONS_SQL` with its parameters. -/
def prefixExpansionsSql (rows : List VocabRow) (columns : List Text) (pattern : Text)
    (maxTermBytes scan limit : ℕ) : List Text :=
  let selected := rows.filter fun row =>
    decide (row.col ∈ columns) && sqlLike '\\' pattern row.term &&
      decide (utf8Len row.term ≤ maxTermBytes)
  let grouped := (sortBy compare (selected.map (·.term)).dedup).map fun term =>
    (term, selected.any fun row => row.term = term && decide (row.col ∈ prefixMetadataColumns))
  let best := (sortBy comparePrefixRows (grouped.take scan)).take limit
  sortBy compare (best.map Prod.fst)

/-! ## §3 Binding a probe -/

/-- A plan that the binder does not accept, or rows that SQLite should not give. -/
inductive ProbeError where
  | planRejected
  | invalidExpansion

def prefixVocabFieldSlots : ℕ := 7

def unusedPrefixVocabColumn : Text :=
  "__kwiry_unused_prefix_field__".toList

/-- The columns of prefix fields, filled up to the slots of the query. -/
def boundPrefixVocabColumns (fields : List QueryField) : Except ProbeError (List Text) := do
  rejectIf (prefixVocabFieldSlots < fields.length ∨ .contentIdentifiers ∈ fields ∨ ¬ fields.Nodup)
    .planRejected
  .ok (fields.map fts5Column ++
    replicate (prefixVocabFieldSlots - fields.length) unusedPrefixVocabColumn)

def isOpaqueValue (value : Option Text) (maximum : ℕ) : Bool :=
  value.any fun t => decide (0 < utf16Len t ∧ utf16Len t ≤ maximum ∧ '\x00' ∉ t)

def isOpaqueUnicodeScalarValue (value : Option Text) (maximumBytes : ℕ) : Bool :=
  value.any fun t => decide (t ≠ [] ∧ utf8Len t ≤ maximumBytes ∧ '\x00' ∉ t)

/-- The parameters of the prefix query. -/
structure BoundPrefix where
  columns : List Text
  pattern : Text
  (maxTermBytes scan limit : ℕ)

/-- The prefix query of a term support probe, if it has one. -/
def bindEvidenceProbe (support : Fts5TermSupport) : Except ProbeError (Option BoundPrefix) := do
  rejectIf (support.schemaVersion ≠ 11) .planRejected
  rejectIf (support.maxPrefixExpansions ≠ 16 ∨ support.maxPrefixExpansionScan ≠ 256 ∨
    support.maxPrefixTermBytes ≠ 96 ∨ maxSafeInteger < support.probeId ∨
    maxSafeInteger < support.termIndex) .planRejected
  let hasMatch := isOpaqueValue support.matchValue 16384
  let hasIdentifier := isOpaqueUnicodeScalarValue support.exactIdentifier 4096
  rejectIf (hasMatch = hasIdentifier) .planRejected
  let columns ← boundPrefixVocabColumns support.prefixFields
  let hasPrefix := support.prefixPattern.isSome
  let hasPrefixStem := isOpaqueUnicodeScalarValue support.prefixStem 4096
  rejectIf (hasPrefix ≠ hasPrefixStem ∨ hasPrefix ≠ decide (support.prefixFields ≠ []))
    .planRejected
  match support.prefixPattern with
  | none => .ok none
  | some pattern => do
    rejectIf (hasMatch = false ∨ isOpaqueValue (some pattern) 4096 = false) .planRejected
    .ok (some ⟨columns, pattern, support.maxPrefixTermBytes, support.maxPrefixExpansionScan,
      support.maxPrefixExpansions⟩)

/-- What `observeQuery` keeps of a probe's expansions. -/
def observePrefix (rows : List VocabRow) (support : Fts5TermSupport) :
    Except ProbeError (List Text) := do
  match ← bindEvidenceProbe support with
  | none => .ok []
  | some bound => do
    let terms := prefixExpansionsSql rows bound.columns bound.pattern bound.maxTermBytes bound.scan
      bound.limit
    rejectIf ([] ∈ terms) .invalidExpansion
    let kept := terms.take support.maxPrefixExpansions
    -- a stem that extends to nothing but itself needs no assistance
    .ok (if kept.any fun term => some term ≠ support.prefixStem then kept else [])

/-! ## §4 The query gives the expansions of its vocabulary -/

/-- The prefix fields of a plan have columns of their own, and those of them that are metadata are
the prefix-metadata fields. -/
structure PrefixGroups (plan : LexicalQueryPlan) : Prop where
  analyzed : AnalyzedPrefixes plan
  nodup : plan.fieldGroups.prefixes.Nodup
  slots : plan.fieldGroups.prefixes.length ≤ prefixVocabFieldSlots
  metadata : plan.fieldGroups.prefixMetadata =
    plan.fieldGroups.prefixes.filter QueryFieldGroups.isPrefixMetadataField

lemma prefixGroups_of_validate {T : CharTables} {plan : LexicalQueryPlan}
    (h : validatePlan T plan = .ok ()) : PrefixGroups plan := by
  have hgroups : plan.fieldGroups = fieldGroupsOf plan.kind plan.scope := validatePlan_groups h
  have hall : ∀ (kind : QueryPlanKind) (scope : Option QueryPublicField),
      (fieldGroupsOf kind scope).prefixes.Nodup ∧
        (fieldGroupsOf kind scope).prefixes.length ≤ prefixVocabFieldSlots ∧
        (fieldGroupsOf kind scope).prefixMetadata =
          (fieldGroupsOf kind scope).prefixes.filter QueryFieldGroups.isPrefixMetadataField := by
    intro kind scope
    cases kind <;> cases scope with
    | none => decide
    | some field => cases field <;> decide
  obtain ⟨hnodup, hslots, hmetadata⟩ := hall plan.kind plan.scope
  rw [← hgroups] at hnodup hslots hmetadata
  exact ⟨analyzedPrefixes_of_validate h, hnodup, hslots, hmetadata⟩

/-- The vocabulary of the FTS5 index has the terms of the dictionaries in its prefix columns, short
and folded to lower case. -/
structure SameRows (plan : LexicalQueryPlan) (contexts : List PrefixSearchContext)
    (rows : List VocabRow) : Prop where
  rows : ∀ field ∈ plan.fieldGroups.prefixes, ∀ term, ⟨term, fts5Column field⟩ ∈ rows ↔
    term ∈ vocabulary contexts (fieldBinding .prefixes field)
  short : ∀ field ∈ plan.fieldGroups.prefixes,
    ∀ term ∈ vocabulary contexts (fieldBinding .prefixes field), utf8Len term ≤ maxPrefixTermBytes
  lower : ∀ field ∈ plan.fieldGroups.prefixes,
    ∀ term ∈ vocabulary contexts (fieldBinding .prefixes field), LowerCase term

section Query

variable {plan : LexicalQueryPlan} {contexts : List PrefixSearchContext} {rows : List VocabRow}
  {stem : Text}

/-- The columns that the query is bound to. -/
def prefixColumns (plan : LexicalQueryPlan) : List Text :=
  plan.fieldGroups.prefixes.map fts5Column ++
    replicate (prefixVocabFieldSlots - plan.fieldGroups.prefixes.length)
      unusedPrefixVocabColumn

lemma fieldBinding_injective {field field' : QueryField}
    (h : fieldBinding .prefixes field = fieldBinding .prefixes field') : field = field' := by
  revert h
  cases field <;> cases field' <;> decide

lemma mem_prefixMetadataColumns (field : QueryField) :
    fts5Column field ∈ prefixMetadataColumns ↔
      QueryFieldGroups.isPrefixMetadataField field = true := by
  cases field <;> decide

/-- No term stands in the column of an unused slot. -/
def SlotsUnused (rows : List VocabRow) : Prop :=
  ∀ row ∈ rows, row.col ≠ unusedPrefixVocabColumn

lemma mem_prefixColumns {row : VocabRow} (hrow : row.col ≠ unusedPrefixVocabColumn) :
    row.col ∈ prefixColumns plan ↔
      ∃ field ∈ plan.fieldGroups.prefixes, row.col = fts5Column field := by
  unfold prefixColumns
  rw [mem_append, mem_map]
  constructor
  · intro h
    rcases h with ⟨field, hfield, heq⟩ | h
    · exact ⟨field, hfield, heq.symm⟩
    · exact absurd (eq_of_mem_replicate h) hrow
  · intro h
    obtain ⟨field, hfield, heq⟩ := h
    exact .inl ⟨field, hfield, heq.symm⟩

/-- The rows that the query selects: terms of prefix fields that begin like the stem. -/
theorem mem_selected (hrows : SameRows plan contexts rows) (hunused : SlotsUnused rows)
    (hstem : LowerCase stem) {row : VocabRow} :
    row ∈ rows.filter (fun row => decide (row.col ∈ prefixColumns plan) &&
        sqlLike '\\' (stem.flatMap likeEscaped ++ ['%']) row.term &&
        decide (utf8Len row.term ≤ maxPrefixTermBytes)) ↔
      ∃ field ∈ plan.fieldGroups.prefixes, row.col = fts5Column field ∧
        row.term ∈ vocabulary contexts (fieldBinding .prefixes field) ∧ stem <+: row.term := by
  simp only [mem_filter, Bool.and_eq_true, decide_eq_true_iff]
  constructor
  · intro h
    obtain ⟨hmem, ⟨hcolumn, hlike⟩, _⟩ := h
    obtain ⟨field, hfield, hcol⟩ := (mem_prefixColumns (hunused row hmem)).mp hcolumn
    obtain ⟨term, col⟩ := row
    obtain rfl : col = fts5Column field := hcol
    have hterm := (hrows.rows field hfield term).mp hmem
    rw [sqlLike_prefixPattern hstem (hrows.lower field hfield term hterm)] at hlike
    exact ⟨field, hfield, rfl, hterm, isPrefixOf_iff_prefix.mp hlike⟩
  · intro h
    obtain ⟨field, hfield, hcol, hterm, hprefix⟩ := h
    obtain ⟨term, col⟩ := row
    obtain rfl : col = fts5Column field := hcol
    have hmem := (hrows.rows field hfield term).mpr hterm
    refine ⟨hmem, ⟨?_, ?_⟩, hrows.short field hfield term hterm⟩
    · exact (mem_prefixColumns (hunused _ hmem)).mpr ⟨field, hfield, rfl⟩
    · rw [sqlLike_prefixPattern hstem (hrows.lower field hfield term hterm)]
      exact isPrefixOf_iff_prefix.mpr hprefix

/-- Lists with the same items, none of them twice, are sorted alike. -/
theorem sortBy_eq_of_mem_iff {items items' : List Text} (hnodup : items.Nodup)
    (hnodup' : items'.Nodup) (h : ∀ a, a ∈ items ↔ a ∈ items') :
    sortBy compare items = sortBy compare items' := by
  have hascending : Ascending compare (sortBy compare items) := ascending_sortBy hnodup
  have hascending' : Ascending compare (sortBy compare items') := ascending_sortBy hnodup'
  have hmem : ∀ a, a ∈ sortBy compare items ↔ a ∈ sortBy compare items' := fun a => by
    rw [mem_sortBy, mem_sortBy, h]
  have hpart := hascending.sublist_of_subset hascending' fun a => (hmem a).mp
  have hwhole := hascending'.sublist_of_subset hascending fun a => (hmem a).mpr
  exact hpart.antisymm hwhole

/-- The query selects, of the first terms that extend the stem, what the native engine selects. -/
theorem prefixExpansionsSql_eq (hgroups : PrefixGroups plan) (hrows : SameRows plan contexts rows)
    (hunused : SlotsUnused rows) (hstem : LowerCase stem) (scan limit : ℕ) :
    prefixExpansionsSql rows (prefixColumns plan) (stem.flatMap likeEscaped ++ ['%'])
        maxPrefixTermBytes scan limit =
      selectExpansions (((extendingTerms plan (vocabulary contexts) stem).take scan).map fun term =>
        (term, inMetadata plan (vocabulary contexts) term)) limit := by
  unfold prefixExpansionsSql
  generalize hselected : rows.filter _ = selected
  have hmem : ∀ row, row ∈ selected ↔ ∃ field ∈ plan.fieldGroups.prefixes,
      row.col = fts5Column field ∧ row.term ∈ vocabulary contexts (fieldBinding .prefixes field) ∧
      stem <+: row.term := fun row => hselected ▸ mem_selected hrows hunused hstem
  have hterms : sortBy compare (selected.map (·.term)).dedup =
      extendingTerms plan (vocabulary contexts) stem := by
    refine sortBy_eq_of_mem_iff (nodup_dedup _) (nodup_dedup _) fun term => ?_
    rw [mem_dedup, mem_dedup, mem_map, mem_filter, mem_flatMap, isPrefixOf_iff_prefix]
    constructor
    · intro h
      obtain ⟨row, hrow, hterm⟩ := h
      obtain ⟨field, hfield, -, hvocabulary, hprefix⟩ := (hmem row).mp hrow
      rw [hterm] at hvocabulary hprefix
      exact ⟨⟨_, mem_map_of_mem hfield, hvocabulary⟩, hprefix⟩
    · intro h
      obtain ⟨⟨native, hnative, hvocabulary⟩, hprefix⟩ := h
      obtain ⟨field, hfield, rfl⟩ := mem_map.mp hnative
      exact ⟨⟨term, fts5Column field⟩, (hmem _).mpr ⟨field, hfield, rfl, hvocabulary, hprefix⟩, rfl⟩
  have hflag : ∀ term ∈ extendingTerms plan (vocabulary contexts) stem,
      (selected.any fun row => row.term = term && decide (row.col ∈ prefixMetadataColumns)) =
        inMetadata plan (vocabulary contexts) term := by
    intro term hterm
    obtain ⟨-, hprefix⟩ := mem_extendingTerms.mp hterm
    rw [Bool.eq_iff_iff, inMetadata, any_eq_true, any_eq_true]
    simp only [Bool.and_eq_true, decide_eq_true_iff]
    constructor
    · intro h
      obtain ⟨row, hrow, hterm, hcolumn⟩ := h
      obtain ⟨field, hfield, hcol, hvocabulary, -⟩ := (hmem row).mp hrow
      rw [hcol, mem_prefixMetadataColumns] at hcolumn
      rw [hterm] at hvocabulary
      refine ⟨_, mem_map_of_mem hfield, ?_, hvocabulary⟩
      refine mem_map_of_mem (show field ∈ plan.fieldGroups.prefixMetadata from ?_)
      rw [hgroups.metadata, mem_filter]
      exact ⟨hfield, hcolumn⟩
    · intro h
      obtain ⟨native, hnative, hmetadata, hvocabulary⟩ := h
      obtain ⟨field, hfield, rfl⟩ := mem_map.mp hnative
      obtain ⟨field', hfield', heq⟩ := mem_map.mp hmetadata
      obtain rfl := fieldBinding_injective heq
      have hmeta : field' ∈ plan.fieldGroups.prefixMetadata := hfield'
      rw [hgroups.metadata, mem_filter] at hmeta
      exact ⟨⟨term, fts5Column field'⟩,
        (hmem _).mpr ⟨field', hfield, rfl, hvocabulary, hprefix⟩, rfl,
        (mem_prefixMetadataColumns field').mpr hmeta.2⟩
  have hwindow : ((extendingTerms plan (vocabulary contexts) stem).map fun term =>
        (term, selected.any fun row => row.term = term && decide (row.col ∈ prefixMetadataColumns)))
      = (extendingTerms plan (vocabulary contexts) stem).map fun term =>
        (term, inMetadata plan (vocabulary contexts) term) :=
    map_congr_left fun term hterm => by rw [hflag term hterm]
  rw [map_take, ← hwindow, ← hterms]
  rfl

/-! ## §5 A stem that extends to itself -/

lemma length_selectExpansions (window : List (Text × Bool)) (limit : ℕ) :
    (selectExpansions window limit).length = min limit window.length := by
  rw [selectExpansions, (sortBy_perm compare _).length_eq, length_map, length_take,
    (sortBy_perm compareExpansions window).length_eq]

lemma mem_of_mem_selectExpansions {window : List (Text × Bool)} {limit : ℕ} {term : Text}
    (h : term ∈ selectExpansions window limit) : term ∈ window.map Prod.fst := by
  rw [selectExpansions, mem_sortBy, mem_map] at h
  obtain ⟨entry, hentry, rfl⟩ := h
  exact mem_map_of_mem (mem_sortBy.mp (mem_of_mem_take hentry))

lemma nodup_selectExpansions {window : List (Text × Bool)} (limit : ℕ)
    (h : (window.map Prod.fst).Nodup) : (selectExpansions window limit).Nodup := by
  have hsorted : ((sortBy compareExpansions window).map Prod.fst).Nodup :=
    ((sortBy_perm compareExpansions window).map Prod.fst).nodup_iff.mpr h
  have hbest : (((sortBy compareExpansions window).take limit).map Prod.fst).Nodup := by
    rw [map_take]
    exact hsorted.sublist (take_sublist _ _)
  exact (sortBy_perm compare _).nodup_iff.mpr hbest

lemma exists_ne_of_two {terms : List Text} (hnodup : terms.Nodup) (h : 2 ≤ terms.length)
    (p : Text) : ∃ term ∈ terms, term ≠ p := by
  match terms with
  | first :: second :: rest =>
    by_cases hfirst : first = p
    · refine ⟨second, by simp, fun heq => ?_⟩
      have hne : first ≠ second := fun heq => by simp [heq] at hnodup
      exact hne (hfirst.trans heq.symm)
    · exact ⟨first, by simp, hfirst⟩

/-- Whether a stem extends to more than itself shows in the terms selected as in all of them. -/
theorem any_selectExpansions (terms : NativeField → List Text) (p : Text) {limit scan : ℕ}
    (hlimit : 2 ≤ limit) (hscan : 2 ≤ scan) :
    (selectExpansions (((extendingTerms plan terms p).take scan).map fun term =>
        (term, inMetadata plan terms term)) limit).any (· ≠ p) =
      (extendingTerms plan terms p).any (· ≠ p) := by
  have hnodup : (extendingTerms plan terms p).Nodup :=
    (sortBy_perm compare _).nodup_iff.mpr (nodup_dedup _)
  have hkeys : (((extendingTerms plan terms p).take scan).map fun term =>
      (term, inMetadata plan terms term)).map Prod.fst =
        (extendingTerms plan terms p).take scan := by
    rw [map_map]
    exact map_id _
  generalize hwindow : ((extendingTerms plan terms p).take scan).map (fun term =>
    (term, inMetadata plan terms term)) = window at hkeys ⊢
  have hlength : window.length = min scan (extendingTerms plan terms p).length := by
    rw [← hwindow, length_map, length_take]
  have hwindowNodup : (window.map Prod.fst).Nodup := by
    rw [hkeys]
    exact hnodup.sublist (take_sublist _ _)
  have hsub : ∀ term ∈ selectExpansions window limit, term ∈ extendingTerms plan terms p := by
    intro term hterm
    have hmem := mem_of_mem_selectExpansions hterm
    rw [hkeys] at hmem
    exact mem_of_mem_take hmem
  rw [Bool.eq_iff_iff, any_eq_true, any_eq_true]
  simp only [decide_eq_true_iff]
  constructor
  · intro h
    obtain ⟨term, hterm, hne⟩ := h
    exact ⟨term, hsub term hterm, hne⟩
  · intro h
    obtain ⟨term, hterm, hne⟩ := h
    by_cases htwo : 2 ≤ (extendingTerms plan terms p).length
    · refine exists_ne_of_two (nodup_selectExpansions limit hwindowNodup) ?_ p
      rw [length_selectExpansions, hlength]
      omega
    · -- the only term is selected, since something is
      obtain ⟨only, honly⟩ : ∃ only, extendingTerms plan terms p = [only] := by
        have hpos := length_pos_of_mem hterm
        exact length_eq_one_iff.mp (by omega)
      have hselected : (selectExpansions window limit).length = 1 := by
        rw [length_selectExpansions, hlength, honly, length_singleton]
        omega
      obtain ⟨kept, hkept⟩ := length_eq_one_iff.mp hselected
      have hkeptMem := hsub kept (by rw [hkept]; exact mem_singleton_self kept)
      rw [honly, mem_singleton] at hkeptMem hterm
      refine ⟨kept, by rw [hkept]; exact mem_singleton_self kept, ?_⟩
      rw [hkeptMem, ← hterm]
      exact hne

end Query

/-! ## §6 Probes of a plan -/

section

variable {T : CharTables} {plan : LexicalQueryPlan}

lemma utf16Len_le_utf8Len (t : Text) : utf16Len t ≤ utf8Len t := by
  induction t with
  | nil => exact Nat.le_refl 0
  | cons c t ih =>
    have hc : (if c.toNat < 0x10000 then 1 else 2) ≤ c.utf8Size := by
      have hpos := Char.utf8Size_pos c
      by_cases hsmall : c.toNat < 0x10000
      · rw [if_pos hsmall]
        exact hpos
      · rw [if_neg hsmall]
        have hne : c.utf8Size ≠ 1 := fun heq => hsmall (by
          have hle := UInt32.le_iff_toNat_le.mp (Char.utf8Size_eq_one_iff.mp heq)
          exact Nat.lt_of_le_of_lt hle (by decide))
        omega
    rw [utf8Len_cons]
    show (if c.toNat < 0x10000 then 1 else 2) + utf16Len t ≤ _
    omega

lemma utf8Len_flatMap_le {f : Char → Text} (hf : ∀ c, utf8Len (f c) ≤ c.utf8Size + 1) (t : Text) :
    utf8Len (t.flatMap f) ≤ 2 * utf8Len t := by
  induction t with
  | nil => exact Nat.le_refl 0
  | cons c t ih =>
    have hc := hf c
    have hpos := Char.utf8Size_pos c
    rw [flatMap_cons, utf8Len_append, utf8Len_cons]
    omega

lemma utf8Len_likeEscaped (c : Char) : utf8Len (likeEscaped c) ≤ c.utf8Size + 1 := by
  unfold likeEscaped
  split
  · simp [utf8Len_cons]
    have : '\\'.utf8Size = 1 := by decide
    omega
  · simp [utf8Len_cons]

lemma utf8Len_quoteFtsPhrase (t : Text) : utf8Len (quoteFtsPhrase t) ≤ 2 * utf8Len t + 2 := by
  have hquote : '"'.utf8Size = 1 := by decide
  have hbody : utf8Len (t.flatMap fun c => if c = '"' then ['"', '"'] else [c]) ≤
      2 * utf8Len t := by
    refine utf8Len_flatMap_le (fun c => ?_) t
    split
    next heq => simp [utf8Len_cons, heq, hquote]
    next => simp [utf8Len_cons]
  unfold quoteFtsPhrase
  simp only [utf8Len_cons, utf8Len_append, utf8Len_nil, hquote]
  omega

lemma nul_not_mem_flatMap {f : Char → Text} {t : Text} (hf : ∀ c, c ≠ '\x00' → '\x00' ∉ f c)
    (ht : '\x00' ∉ t) : '\x00' ∉ t.flatMap f := by
  rw [mem_flatMap]
  intro h
  obtain ⟨c, hc, hmem⟩ := h
  exact hf c (fun heq => ht (heq ▸ hc)) hmem

/-- What the adapter says of a probe whose stem it wants extended. -/
structure ExtendedProbe (T : CharTables) (plan : LexicalQueryPlan) (support : Fts5TermSupport)
    (stem : Text) : Prop where
  schemaVersion : support.schemaVersion = 11
  probeId : support.probeId ≤ maxSafeInteger
  termIndex : support.termIndex ≤ maxSafeInteger
  matchValue : ∃ fields, fts5Fields plan .searchableText = .ok fields ∧
    support.matchValue = some (columnFilter fields (quoteFtsPhrase stem))
  exactIdentifier : support.exactIdentifier = none
  prefixPattern : support.prefixPattern = some (stem.flatMap likeEscaped ++ ['%'])
  prefixFields : support.prefixFields = plan.fieldGroups.prefixes
  prefixStem : support.prefixStem = some stem
  maxPrefixExpansions : support.maxPrefixExpansions = 16
  maxPrefixExpansionScan : support.maxPrefixExpansionScan = 256
  maxPrefixTermBytes : support.maxPrefixTermBytes = 96
  nonempty : stem ≠ []
  termChars : stem.all (isTermChar T) = true

/-- The probes of a valid plan ask about its terms, and its intents are about them too. -/
theorem validatePlan_probe (h : validatePlan T plan = .ok ()) {probe : QueryTermSupportProbe}
    {index : ℕ} (hprobe : (probe, index) ∈ plan.supportProbes.zipIdx) :
    probe.probeId < 2 ^ 16 ∧ probe.termIndex < 2 ^ 16 ∧ probe.fieldGroup = .searchableText ∧
      ∀ intent, plan.termIntents[probe.termIndex]? = some intent → intent.text = probe.term := by
  have hne : plan.supportProbes ≠ [] := fun hnil => by simp [hnil] at hprobe
  have hbounds := validatePlan_bounds h
  simp only [validatePlan, bind_unit_ok_iff] at h
  obtain ⟨hheader, hrest⟩ := h
  have hassisted : plan.kind ≠ .explicit := by
    intro hexplicit
    rw [if_pos hexplicit] at hrest
    simp only [validateExplicit, rejectIf_ok, not_or, not_not, ne_eq] at hrest
    exact hne (by tauto)
  rw [if_neg hassisted] at hrest
  simp only [validateAssisted, bind_unit_ok_iff, rejectIf_ok, not_or, not_not, ne_eq] at hrest
  obtain ⟨-, ⟨hterms, hcount⟩, hintents, -, -, -, hexecution⟩ := hrest
  -- only a plan that waits for evidence has probes
  have hcheck : validateProbe plan (probe, index) = .ok () := by
    unfold validateExecution at hexecution
    split at hexecution
    · cases hexecution
    · simp only [bind_unit_ok_iff, forM_ok_iff] at hexecution
      exact hexecution.2 _ hprobe
    · simp only [bind_unit_ok_iff, rejectIf_ok, not_or, not_not, ne_eq] at hexecution
      exact absurd (by tauto) hne
    · simp only [bind_unit_ok_iff, rejectIf_ok, not_or, not_not, ne_eq] at hexecution
      exact absurd (by tauto) hne
  simp only [validateProbe, rejectIf_ok, not_or, not_not, ne_eq] at hcheck
  obtain ⟨hid, hindex, hterm, hgroup⟩ := hcheck
  refine ⟨hid ▸ Nat.mod_lt _ (by decide), hindex ▸ Nat.mod_lt _ (by decide), hgroup, ?_⟩
  intro intent hintent
  obtain ⟨hlt, -⟩ := List.getElem?_eq_some_iff.mp hterm.symm
  have hsmall : index < 2 ^ 16 := by
    rw [hbounds] at hcount
    have : QueryBounds.lexicalV1.maxTermSupportProbes = 128 := rfl
    omega
  rw [hindex, Nat.mod_eq_of_lt hsmall] at hintent
  rw [forM_ok_iff] at hintents
  have hentry := hintents _ (mem_zipIdx_iff_getElem?.mpr
    (getElem?_zip_eq_some.mpr ⟨hterm.symm, hintent⟩) :
      ((probe.term, intent), index) ∈ (plan.terms.zip plan.termIntents).zipIdx)
  simp only [validateTermIntent, bind_unit_ok_iff, rejectIf_ok, not_or, not_not, ne_eq] at hentry
  exact hentry.1.2

/-- The match value of an analyzed term. -/
theorem probeMatchValue_ok {intent : QueryTermIntent} {probe : QueryTermSupportProbe}
    {value : Option Text} (hintent : plan.termIntents[probe.termIndex]? = some intent)
    (hanalyzed : intent.projection = .analyzedText)
    (h : probeMatchValue plan intent probe = .ok value) :
    ∃ fields, fts5Fields plan probe.fieldGroup = .ok fields ∧
      value = some (columnFilter fields (quoteFtsPhrase intent.text)) := by
  rw [probeMatchValue, if_pos hanalyzed] at h
  have hintents : intentsAt plan [probe.termIndex] "Unknown term index." = .ok [intent] := by
    simp [intentsAt, hintent, pure, Except.pure, bind, Except.bind]
  unfold scopedAnalyzedTerms scopedOptionalAnalyzedTerms at h
  rw [hintents] at h
  cases hfields : fts5Fields plan probe.fieldGroup with
  | error error => simp [hfields, hanalyzed, bind, Except.bind, Except.map] at h
  | ok fields =>
    refine ⟨fields, rfl, ?_⟩
    simp [hfields, hanalyzed, bind, Except.bind, Except.map, matchTerms, joinWith, rejectIf] at h
    exact h.symm

variable {support : Fts5TermSupport}

/-- A probe that has a stem to extend is one of a term that the plan analyzes. -/
theorem extendedProbe_of_mem {probes : List Fts5EvidenceProbePlan} {stem : Text}
    (h : evidenceProbePlans T plan = .ok probes) (hmem : .termSupportV3 support ∈ probes)
    (hstem : support.prefixStem = some stem) :
    validatePlan T plan = .ok () ∧ ExtendedProbe T plan support stem := by
  unfold evidenceProbePlans at h
  obtain ⟨⟨⟩, hvalid, h⟩ := bind_ok_iff.mp h
  have hplan : validatePlan T plan = .ok () := by
    cases hvalidate : validatePlan T plan with
    | ok _ => rfl
    | error error => simp [asAdapter, hvalidate, Except.mapError] at hvalid
  split at h
  · cases h
    cases hmem
  obtain ⟨metadata, hmetadata, h⟩ := bind_ok_iff.mp h
  obtain ⟨supports, hsupports, h⟩ := bind_ok_iff.mp h
  cases h
  have hsupport : .termSupportV3 support ∈ supports := by
    refine (mem_append.mp hmem).resolve_left fun hmetadataMem => ?_
    -- the metadata probe is of another kind
    unfold metadataProbePlan at hmetadata
    split at hmetadata
    · cases hmetadata
      cases hmetadataMem
    · obtain ⟨_, -, hmetadata⟩ := bind_ok_iff.mp hmetadata
      obtain ⟨_, -, hmetadata⟩ := bind_ok_iff.mp hmetadata
      obtain ⟨_, -, hmetadata⟩ := bind_ok_iff.mp hmetadata
      cases hmetadata
      cases mem_singleton.mp hmetadataMem
  obtain ⟨⟨probe, index⟩, hprobe, hentry⟩ := (mem_of_mapM_ok hsupports _).mp hsupport
  obtain ⟨hid, hindex, hgroup, htext⟩ := validatePlan_probe hplan hprobe
  have hbounds := validatePlan_bounds hplan
  unfold termSupportPlan at hentry
  simp only at hentry
  split at hentry
  · cases hentry
  next intent hintent =>
    obtain ⟨matchValue, hmatch, hentry⟩ := bind_ok_iff.mp hentry
    cases hentry
    obtain ⟨pattern, hpattern⟩ :
        ∃ pattern, probePattern T plan intent probe index = some pattern := by
      cases hpattern : probePattern T plan intent probe index with
      | none => simp [hpattern] at hstem
      | some pattern => exact ⟨pattern, rfl⟩
    simp only [hpattern, Option.isSome_some, if_true] at hstem ⊢
    obtain rfl := Option.some.inj hstem
    unfold probePattern at hpattern
    obtain ⟨⟨hanalyzed, -, -⟩, hpattern⟩ := Option.ite_none_right_eq_some.mp hpattern
    unfold prefixPattern at hpattern
    obtain ⟨hallowed, hpattern⟩ := Option.ite_none_left_eq_some.mp hpattern
    rw [not_or, not_lt] at hallowed
    obtain ⟨fields, hfields, rfl⟩ := probeMatchValue_ok hintent hanalyzed hmatch
    rw [hgroup] at hfields
    rw [htext intent hintent]
    refine ⟨hplan, ?_⟩
    have hlength : 3 ≤ probe.term.length := by
      have := hallowed.1
      rw [hbounds] at this
      exact this
    exact {
      schemaVersion := rfl
      probeId := hid.le.trans (by decide)
      termIndex := hindex.le.trans (by decide)
      matchValue := ⟨fields, hfields, rfl⟩
      exactIdentifier := by simp [hanalyzed]
      prefixPattern := by
        rw [← Option.some.inj hpattern]
        rfl
      prefixFields := rfl
      prefixStem := rfl
      maxPrefixExpansions := by rw [hbounds]; rfl
      maxPrefixExpansionScan := by rw [hbounds]; rfl
      maxPrefixTermBytes := rfl
      nonempty := fun hnil => by simp [hnil] at hlength
      termChars := by simpa using hallowed.2 }

lemma fts5Fields_short (h : validatePlan T plan = .ok ()) {fields : Text}
    (hfields : fts5Fields plan .searchableText = .ok fields) :
    utf8Len fields ≤ 100 ∧ '\x00' ∉ fields := by
  have hgroups : plan.fieldGroups = fieldGroupsOf plan.kind plan.scope := validatePlan_groups h
  have hall : ∀ (kind : QueryPlanKind) (scope : Option QueryPublicField),
      utf8Len (joinWith [' '] ((fieldGroupsOf kind scope).searchableText.map fts5Column)) ≤ 100 ∧
        '\x00' ∉ joinWith [' '] ((fieldGroupsOf kind scope).searchableText.map fts5Column) := by
    intro kind scope
    cases kind <;> cases scope with
    | none => decide
    | some field => cases field <;> decide
  unfold fts5Fields at hfields
  obtain ⟨⟨⟩, -, hfields⟩ := bind_ok_iff.mp hfields
  cases hfields
  show utf8Len (joinWith [' '] (plan.fieldGroups.searchableText.map fts5Column)) ≤ 100 ∧ _
  rw [hgroups]
  exact hall plan.kind plan.scope

/-- The probe of a stem that is short enough to be a token is bound to the prefix query. -/
theorem bindEvidenceProbe_extended (hnul : T.isAlphanumeric '\x00' = false)
    (h : validatePlan T plan = .ok ()) {stem : Text} (hprobe : ExtendedProbe T plan support stem)
    (hshort : utf8Len stem < 40) :
    bindEvidenceProbe support = .ok (some ⟨prefixColumns plan, stem.flatMap likeEscaped ++ ['%'],
      maxPrefixTermBytes, 256, 16⟩) := by
  have hgroups := prefixGroups_of_validate h
  have hstemNul : '\x00' ∉ stem := fun hmem => by
    have := all_eq_true.mp hprobe.termChars _ hmem
    simp [isTermChar, hnul] at this
  obtain ⟨fields, hfields, hmatchValue⟩ := hprobe.matchValue
  obtain ⟨hfieldsShort, hfieldsNul⟩ := fts5Fields_short h hfields
  have hone : '{'.utf8Size = 1 ∧ '}'.utf8Size = 1 ∧ ' '.utf8Size = 1 ∧ ':'.utf8Size = 1 ∧
      '('.utf8Size = 1 ∧ ')'.utf8Size = 1 ∧ '%'.utf8Size = 1 := by decide
  have hmatch : isOpaqueValue support.matchValue 16384 = true := by
    rw [hmatchValue]
    have hquoted := utf8Len_quoteFtsPhrase stem
    have hunits := utf16Len_le_utf8Len (columnFilter fields (quoteFtsPhrase stem))
    have hquotedNul : '\x00' ∉ quoteFtsPhrase stem := by
      have hbody : '\x00' ∉ stem.flatMap fun c => if c = '"' then ['"', '"'] else [c] :=
        nul_not_mem_flatMap (fun c hc => by split <;> simp [Ne.symm hc]) hstemNul
      unfold quoteFtsPhrase
      simp [hbody]
    have hfilterNul : '\x00' ∉ columnFilter fields (quoteFtsPhrase stem) := by
      unfold columnFilter
      simp [hfieldsNul, hquotedNul]
    have hpositive : 0 < utf16Len (columnFilter fields (quoteFtsPhrase stem)) := by
      unfold columnFilter
      exact Nat.lt_of_lt_of_le Nat.one_pos (Nat.le_add_right 1 _)
    have hlength : utf8Len (columnFilter fields (quoteFtsPhrase stem)) ≤ 16384 := by
      unfold columnFilter
      simp only [utf8Len_append, utf8Len_cons, utf8Len_nil, hone]
      omega
    simpa [isOpaqueValue] using ⟨hpositive, hunits.trans hlength, hfilterNul⟩
  have hpattern : isOpaqueValue (some (stem.flatMap likeEscaped ++ ['%'])) 4096 = true := by
    have hbody := utf8Len_flatMap_le utf8Len_likeEscaped stem
    have hunits := utf16Len_le_utf8Len (stem.flatMap likeEscaped ++ ['%'])
    have hbodyNul : '\x00' ∉ stem.flatMap likeEscaped :=
      nul_not_mem_flatMap (fun c hc => by unfold likeEscaped; split <;> simp [Ne.symm hc]) hstemNul
    have hlength : utf8Len (stem.flatMap likeEscaped ++ ['%']) ≤ 4096 := by
      simp only [utf8Len_append, utf8Len_cons, utf8Len_nil, hone]
      omega
    have hpositive : 0 < utf16Len (stem.flatMap likeEscaped ++ ['%']) := by
      unfold utf16Len
      simp
    have hfree : '\x00' ∉ stem.flatMap likeEscaped ++ ['%'] := by simp [hbodyNul]
    simpa [isOpaqueValue] using ⟨hpositive, hunits.trans hlength, by simpa using hfree⟩
  have hstem : isOpaqueUnicodeScalarValue (some stem) 4096 = true := by
    simpa [isOpaqueUnicodeScalarValue] using
      ⟨hprobe.nonempty, (by omega : utf8Len stem ≤ 4096), hstemNul⟩
  have hcolumns : boundPrefixVocabColumns support.prefixFields = .ok (prefixColumns plan) := by
    unfold boundPrefixVocabColumns
    rw [hprobe.prefixFields, bind_unit_ok_iff, rejectIf_ok]
    refine ⟨?_, rfl⟩
    rw [not_or, not_or, not_not]
    refine ⟨Nat.not_lt.mpr hgroups.slots, fun hmem => ?_, hgroups.nodup⟩
    exact hgroups.analyzed.analyzed _ hmem rfl
  have hfieldsNe : support.prefixFields ≠ [] := by
    rw [hprobe.prefixFields]
    exact hgroups.analyzed.nonempty
  unfold bindEvidenceProbe
  rw [bind_unit_ok_iff, rejectIf_ok]
  refine ⟨by simp [hprobe.schemaVersion], ?_⟩
  rw [bind_unit_ok_iff, rejectIf_ok]
  refine ⟨?_, ?_⟩
  · rw [hprobe.maxPrefixExpansions, hprobe.maxPrefixExpansionScan, hprobe.maxPrefixTermBytes]
    simp [hprobe.probeId, hprobe.termIndex]
  rw [hmatch, hprobe.exactIdentifier, bind_unit_ok_iff, rejectIf_ok]
  refine ⟨by simp [isOpaqueUnicodeScalarValue], ?_⟩
  rw [hcolumns, hprobe.prefixPattern, hprobe.prefixStem, hstem]
  simp only [bind, Except.bind, Option.isSome_some, hfieldsNe, ne_eq, not_true_eq_false,
    not_false_eq_true, decide_true, or_self, hpattern]
  simp [rejectIf, hprobe.maxPrefixExpansions, hprobe.maxPrefixExpansionScan,
    hprobe.maxPrefixTermBytes, maxPrefixTermBytes]

/-- The analyzer of the text fields: the tokens of a tokenizer, the long ones removed. -/
def lexicalAnalyzer (tokenize : Text → List Text) (text : Text) : List Text :=
  (tokenize text).filter fun token => utf8Len token < 40

/-- What is kept of a bound probe are the expansions of the vocabulary. -/
theorem observePrefix_eq (hnul : T.isAlphanumeric '\x00' = false) (h : validatePlan T plan = .ok ())
    {stem : Text} (hprobe : ExtendedProbe T plan support stem) (hshort : utf8Len stem < 40)
    (hlower : LowerCase stem) {contexts : List PrefixSearchContext} {rows : List VocabRow}
    (hrows : SameRows plan contexts rows) (hunused : SlotsUnused rows) :
    observePrefix rows support = .ok (expansionsOf plan (vocabulary contexts) stem 16 256) := by
  unfold observePrefix
  rw [bindEvidenceProbe_extended hnul h hprobe hshort]
  simp only [bind, Except.bind]
  rw [prefixExpansionsSql_eq (prefixGroups_of_validate h) hrows hunused hlower,
    hprobe.maxPrefixExpansions, hprobe.prefixStem]
  have hany : (selectExpansions (((extendingTerms plan (vocabulary contexts) stem).take 256).map
      fun term => (term, inMetadata plan (vocabulary contexts) term)) 16).any (· ≠ stem) =
      (extendingTerms plan (vocabulary contexts) stem).any (· ≠ stem) :=
    any_selectExpansions (vocabulary contexts) stem (by decide) (by decide)
  have hextends : ∀ term ∈ selectExpansions (((extendingTerms plan (vocabulary contexts) stem).take
      256).map fun term => (term, inMetadata plan (vocabulary contexts) term)) 16,
      stem <+: term := by
    intro term hterm
    obtain ⟨entry, hentry, rfl⟩ := mem_map.mp (mem_of_mem_selectExpansions hterm)
    obtain ⟨extending, hextending, rfl⟩ := mem_map.mp hentry
    exact (mem_extendingTerms.mp (mem_of_mem_take hextending)).2
  have hlength := length_selectExpansions (((extendingTerms plan (vocabulary contexts) stem).take
    256).map fun term => (term, inMetadata plan (vocabulary contexts) term)) 16
  unfold expansionsOf
  simp only [← hany]
  generalize selectExpansions _ 16 = terms at hextends hlength ⊢
  have hnonempty : [] ∉ terms := fun hmem =>
    hprobe.nonempty (prefix_nil.mp (hextends [] hmem))
  have hkept : terms.take 16 = terms := take_of_length_le (by omega)
  have hsame : (terms.any fun term => decide (some term ≠ some stem)) = terms.any (· ≠ stem) := by
    congr 1
    funext term
    simp
  rw [hkept, hsame]
  simp [rejectIf, hnonempty]

/-- Both engines expand a stem to the same terms, when it is one lower-case token that the adapter
wants extended, and their vocabularies are the same. -/
theorem prefixExpansions_agree (hnul : T.isAlphanumeric '\x00' = false)
    {probes : List Fts5EvidenceProbePlan} (hprobes : evidenceProbePlans T plan = .ok probes)
    {support : Fts5TermSupport} (hmem : .termSupportV3 support ∈ probes) {stem : Text}
    (hstem : support.prefixStem = some stem) {tokenize : Text → List Text}
    (htoken : lexicalAnalyzer tokenize stem = [stem]) (hlower : LowerCase stem)
    {contexts : List PrefixSearchContext} {rows : List VocabRow}
    (hrows : SameRows plan contexts rows) (hunused : SlotsUnused rows) :
    ∃ terms, observePrefix rows support = .ok terms ∧
      collectPrefixExpansions (lexicalAnalyzer tokenize) contexts plan stem 16 256 = .ok terms := by
  obtain ⟨hplan, hprobe⟩ := extendedProbe_of_mem hprobes hmem hstem
  have hshort : utf8Len stem < 40 := by
    have hself : stem ∈ lexicalAnalyzer tokenize stem := by
      rw [htoken]
      exact mem_singleton_self stem
    exact of_decide_eq_true (mem_filter.mp hself).2
  refine ⟨_, observePrefix_eq hnul hplan hprobe hshort hlower hrows hunused, ?_⟩
  rw [collectPrefixExpansions_eq (prefixGroups_of_validate hplan).analyzed _ _ _ _ (by decide),
    htoken]

end

/-- The first probe of a plan, where it asks for a term of the query. -/
def firstSupport (plan : LexicalQueryPlan) : Option Fts5TermSupport :=
  match evidenceProbePlans .latin plan with
  | .ok (.termSupportV3 support :: _) => some support
  | _ => none

def alphaContexts : List PrefixSearchContext :=
  [⟨[.ofTerms ["alphabet".toList] ["alpha".toList]]⟩]

def alphaRows : List VocabRow :=
  [⟨"alpha".toList, "content".toList⟩, ⟨"alphabet".toList, "title".toList⟩]

theorem prefixExpansions_agree_alpha :
    ∃ support terms, firstSupport expandedPlan = some support ∧
      observePrefix alphaRows support = .ok terms ∧
      collectPrefixExpansions (lexicalAnalyzer fun text => [text]) alphaContexts expandedPlan
        "alpha".toList 16 256 = .ok terms := by
  have hstem : (firstSupport expandedPlan).bind Fts5TermSupport.prefixStem =
      some "alpha".toList := by decide +kernel
  obtain ⟨support, hfirst, hstem⟩ := Option.bind_eq_some_iff.mp hstem
  obtain ⟨probes, hprobes, hmem⟩ : ∃ probes, evidenceProbePlans .latin expandedPlan = .ok probes ∧
      .termSupportV3 support ∈ probes := by
    unfold firstSupport at hfirst
    split at hfirst
    · next hprobes =>
      cases hfirst
      exact ⟨_, hprobes, mem_cons_self⟩
    · cases hfirst
  have hrows : SameRows expandedPlan alphaContexts alphaRows := by
    have hvocabulary : ∀ field term,
        term ∈ vocabulary alphaContexts (fieldBinding .prefixes field) ↔
          (⟨term, fts5Column field⟩ : VocabRow) ∈ alphaRows := by
      intro field term
      have htitle : "title".toList = fts5Column field ↔ field = .title := by
        cases field <;> decide
      have hcontent : "content".toList = fts5Column field ↔ field = .content := by
        cases field <;> decide
      simp only [alphaRows, mem_cons, not_mem_nil, or_false, VocabRow.mk.injEq,
        eq_comm (a := fts5Column field), htitle, hcontent]
      cases field <;>
        simp [vocabulary, alphaContexts, SegmentReader.ofTerms, TermDictionary.ofTerms,
          fieldBinding]
    have hwords : ∀ row ∈ alphaRows, utf8Len row.term ≤ maxPrefixTermBytes ∧
        ∀ c ∈ row.term, c.toLower = c := by decide
    refine ⟨fun field _ term => (hvocabulary field term).symm, ?_, ?_⟩
    · exact fun field _ term hterm => (hwords _ ((hvocabulary field term).mp hterm)).1
    · exact fun field _ term hterm => (hwords _ ((hvocabulary field term).mp hterm)).2
  obtain ⟨terms, hadapter, hnative⟩ := prefixExpansions_agree (by decide) hprobes hmem hstem
    (show lexicalAnalyzer (fun text => [text]) "alpha".toList = ["alpha".toList] by decide)
    (show ∀ c ∈ "alpha".toList, c.toLower = c by decide) hrows
    (show ∀ row ∈ alphaRows, row.col ≠ unusedPrefixVocabColumn by decide)
  exact ⟨support, terms, hfirst, hadapter, hnative⟩

end Kwiry
