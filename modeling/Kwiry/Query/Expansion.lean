import Kwiry.Foundations.Windows
import Kwiry.Query.Shape

/-!
# Prefix Expansion

`collect_prefix_expansions`: the terms that extend a typed prefix, read from the term dictionaries
of every segment of every searched index. Each dictionary is read up to the same bound, and so the
result is the one that a single dictionary of all their terms would give.

Texts are compared by code points, which is the order of their UTF-8 bytes.
-/

namespace Kwiry

open Foundations List

variable {plan plan' : LexicalQueryPlan}

inductive NativeSearchError where
  | query (message : Text)
  | index (message : Text)
  deriving DecidableEq

/-! ## §1 Fields and dictionaries -/

/-- The indexed fields that a query field can stand for. -/
inductive NativeField where
  | filename | stem | aliases | title | headingText | tagsText | content | contentIdentifiers
  | filenameRaw | stemRaw | aliasesRaw | titleRaw | headingRaw
  deriving DecidableEq

/-- Fields whose text is cut into terms; of the others each text is one term. -/
def NativeField.isAnalyzed : NativeField → Bool
  | .filename | .stem | .aliases | .title | .headingText | .tagsText | .content => true
  | _ => false

def fieldBinding : QueryFieldGroup → QueryField → NativeField
  | .exact, .filename => .filenameRaw
  | .exact, .stem => .stemRaw
  | .exact, .aliases => .aliasesRaw
  | .exact, .title => .titleRaw
  | .exact, .heading => .headingRaw
  | .exact, .contentIdentifiers => .contentIdentifiers
  | _, .filename => .filename
  | _, .stem => .stem
  | _, .aliases => .aliases
  | _, .title => .title
  | _, .heading => .headingText
  | _, .tags => .tagsText
  | _, .content => .content
  | _, .contentIdentifiers => .contentIdentifiers

def fieldBindings (declared : List QueryField) (group : QueryFieldGroup) : List NativeField :=
  declared.map (fieldBinding group)

def declaredFields (plan : LexicalQueryPlan) : QueryFieldGroup → List QueryField
  | .searchableText => plan.fieldGroups.searchableText
  | .metadata => plan.fieldGroups.metadata
  | .exact => plan.fieldGroups.exact
  | .phrase => plan.fieldGroups.phrase
  | .prefixes => plan.fieldGroups.prefixes
  | .prefixMetadata => plan.fieldGroups.prefixMetadata

/-- The terms of a text; `analyze` is the analyzer of the text fields. -/
def analyzeText (analyze : Text → List Text) (field : NativeField) (text : Text) : List Text :=
  if field.isAnalyzed then analyze text else [text]

/-- The terms one segment has of one field. -/
structure TermDictionary where
  terms : List Text
  ascending : Ascending compare terms

structure SegmentReader where
  invertedIndex : NativeField → TermDictionary

structure PrefixSearchContext where
  segmentReaders : List SegmentReader

/-! ## §2 Expansions from the dictionaries -/

def prefixFields (plan : LexicalQueryPlan) : List NativeField :=
  fieldBindings (declaredFields plan .prefixes) .prefixes

def metadataFields (plan : LexicalQueryPlan) : List NativeField :=
  fieldBindings (declaredFields plan .prefixMetadata) .prefixes

/-- The terms with a prefix, in a stream that starts at the prefix and ends after `scan` of them. -/
def streamTerms (p : Text) (scan : ℕ) (dictionary : TermDictionary) : List Text :=
  ((dictionary.terms.dropWhile fun term => compare term p = .lt).takeWhile
    (p.isPrefixOf ·)).take scan

/-- The terms that were seen, and whether in a prefix-metadata field. -/
def expansionWindow (contexts : List PrefixSearchContext) (plan : LexicalQueryPlan) (p : Text)
    (scan : ℕ) : List (Text × Bool) :=
  noteAll compare <| contexts.flatMap fun context =>
    (prefixFields plan).flatMap fun field =>
      context.segmentReaders.flatMap fun segment =>
        (streamTerms p scan (segment.invertedIndex field)).map
          (·, decide (field ∈ metadataFields plan))

def compareExpansions (left right : Text × Bool) : Ordering :=
  (compare right.2 left.2).then <|
  (compare (utf8Len left.1) (utf8Len right.1)).then <|
  compare left.1 right.1

/-- The most useful terms of a window, as a set in its order. -/
def selectExpansions (window : List (Text × Bool)) (limit : ℕ) : List Text :=
  sortBy compare (((sortBy compareExpansions window).take limit).map Prod.fst)

def collectPrefixExpansions (analyze : Text → List Text) (contexts : List PrefixSearchContext)
    (plan : LexicalQueryPlan) (term : Text) (limit scan : ℕ) :
    Except NativeSearchError (List Text) :=
  if limit = 0 ∨ scan = 0 ∨ contexts = [] then .ok []
  else match prefixFields plan with
    | [] => .error (.query "prefix field group is empty".toList)
    | analysisField :: _ =>
      match analyzeText analyze analysisField term with
      | [p] =>
        let window := expansionWindow contexts plan p scan
        -- a term that extends to nothing but itself needs no assistance
        if window.any fun entry => entry.1 ≠ p then .ok (selectExpansions (window.take scan) limit)
        else .ok []
      | _ => .ok []

/-! ## §3 Expansions from a vocabulary -/

/-- The terms of a field in all searched segments. -/
def vocabulary (contexts : List PrefixSearchContext) (field : NativeField) : List Text :=
  contexts.flatMap fun context =>
    context.segmentReaders.flatMap fun segment => (segment.invertedIndex field).terms

section

variable (plan : LexicalQueryPlan) (terms : NativeField → List Text)

/-- The distinct terms with a prefix in any of the prefix fields. -/
def extendingTerms (p : Text) : List Text :=
  sortBy compare (((prefixFields plan).flatMap terms).filter (p.isPrefixOf ·)).dedup

def inMetadata (term : Text) : Bool :=
  (prefixFields plan).any fun field =>
    decide (field ∈ metadataFields plan) && decide (term ∈ terms field)

/-- What expansion is meant to give: of the first terms with the prefix those in prefix-metadata
fields, then the shorter ones, and nothing when the prefix itself is the only one. -/
def expansionsOf (p : Text) (limit scan : ℕ) : List Text :=
  let extending := extendingTerms plan terms p
  if extending.any (· ≠ p) then
    selectExpansions ((extending.take scan).map fun term => (term, inMetadata plan terms term)) limit
  else []

end

/-! ## §4 The dictionaries give the expansions of their vocabulary -/

section

variable {contexts contexts' : List PrefixSearchContext} {p : Text}

/-- The terms of one field of one segment that have the prefix. -/
def fieldStream (plan : LexicalQueryPlan) (p : Text) (field : NativeField)
    (segment : SegmentReader) : Stream (α := Text) compare where
  items := (segment.invertedIndex field).terms.filter (p.isPrefixOf ·)
  flag := decide (field ∈ metadataFields plan)
  ascending := (segment.invertedIndex field).ascending.filter _

def fieldStreams (contexts : List PrefixSearchContext) (plan : LexicalQueryPlan) (p : Text) :
    List (Stream (α := Text) compare) :=
  contexts.flatMap fun context =>
    (prefixFields plan).flatMap fun field =>
      context.segmentReaders.map (fieldStream plan p field)

lemma streamTerms_eq (p : Text) (scan : ℕ) (dictionary : TermDictionary) :
    streamTerms p scan dictionary = (dictionary.terms.filter (p.isPrefixOf ·)).take scan := by
  rw [streamTerms, prefix_run_eq_filter dictionary.ascending]

lemma expansionWindow_eq (contexts : List PrefixSearchContext) (plan : LexicalQueryPlan)
    (p : Text) (scan : ℕ) :
    expansionWindow contexts plan p scan = noteStreams scan (fieldStreams contexts plan p) := by
  simp only [expansionWindow, noteStreams, fieldStreams, flatMap_assoc, flatMap_map,
    streamTerms_eq, fieldStream]

lemma mem_fieldStreams {stream : Stream (α := Text) compare} :
    stream ∈ fieldStreams contexts plan p ↔ ∃ context ∈ contexts, ∃ field ∈ prefixFields plan,
      ∃ segment ∈ context.segmentReaders, fieldStream plan p field segment = stream := by
  simp [fieldStreams]

lemma mem_vocabulary {field : NativeField} {term : Text} :
    term ∈ vocabulary contexts field ↔ ∃ context ∈ contexts, ∃ segment ∈ context.segmentReaders,
      term ∈ (segment.invertedIndex field).terms := by
  simp [vocabulary]

lemma mem_extendingTerms {terms : NativeField → List Text} {term : Text} :
    term ∈ extendingTerms plan terms p ↔
      (∃ field ∈ prefixFields plan, term ∈ terms field) ∧ p <+: term := by
  simp [extendingTerms]

lemma unionOf_extendingTerms (contexts : List PrefixSearchContext) (plan : LexicalQueryPlan)
    (p : Text) :
    UnionOf (fieldStreams contexts plan p) (extendingTerms plan (vocabulary contexts) p) where
  ascending := ascending_sortBy (nodup_dedup _)
  mem_iff term := by
    rw [mem_extendingTerms]
    constructor
    · rintro ⟨⟨field, hfield, hterm⟩, hp⟩
      obtain ⟨context, hcontext, segment, hsegment, hterm⟩ := mem_vocabulary.mp hterm
      refine ⟨fieldStream plan p field segment,
        mem_fieldStreams.mpr ⟨context, hcontext, field, hfield, segment, hsegment, rfl⟩, ?_⟩
      exact mem_filter.mpr ⟨hterm, isPrefixOf_iff_prefix.mpr hp⟩
    · rintro ⟨stream, hstream, hterm⟩
      obtain ⟨context, hcontext, field, hfield, segment, hsegment, rfl⟩ :=
        mem_fieldStreams.mp hstream
      obtain ⟨hterm, hp⟩ := mem_filter.mp hterm
      refine ⟨⟨field, hfield, ?_⟩, isPrefixOf_iff_prefix.mp hp⟩
      exact mem_vocabulary.mpr ⟨context, hcontext, segment, hsegment, hterm⟩

/-- A term that has the prefix is flagged as in the vocabulary. -/
theorem any_fieldStreams {term : Text} (hp : p <+: term) :
    ((fieldStreams contexts plan p).any fun stream =>
      stream.flag && decide (term ∈ stream.items)) =
      inMetadata plan (vocabulary contexts) term := by
  rw [Bool.eq_iff_iff, any_eq_true, inMetadata, any_eq_true]
  simp only [Bool.and_eq_true, decide_eq_true_iff]
  constructor
  · rintro ⟨stream, hstream, hflag, hterm⟩
    obtain ⟨context, hcontext, field, hfield, segment, hsegment, rfl⟩ :=
      mem_fieldStreams.mp hstream
    refine ⟨field, hfield, of_decide_eq_true hflag, ?_⟩
    exact mem_vocabulary.mpr ⟨context, hcontext, segment, hsegment, mem_of_mem_filter hterm⟩
  · rintro ⟨field, hfield, hmetadata, hterm⟩
    obtain ⟨context, hcontext, segment, hsegment, hterm⟩ := mem_vocabulary.mp hterm
    refine ⟨fieldStream plan p field segment,
      mem_fieldStreams.mpr ⟨context, hcontext, field, hfield, segment, hsegment, rfl⟩,
      decide_eq_true hmetadata, ?_⟩
    exact mem_filter.mpr ⟨hterm, isPrefixOf_iff_prefix.mpr hp⟩

lemma take_expansionWindow (contexts : List PrefixSearchContext) (plan : LexicalQueryPlan)
    (p : Text) (scan : ℕ) :
    (expansionWindow contexts plan p scan).take scan =
      ((extendingTerms plan (vocabulary contexts) p).take scan).map fun term =>
        (term, inMetadata plan (vocabulary contexts) term) := by
  rw [expansionWindow_eq, take_noteStreams (unionOf_extendingTerms contexts plan p)]
  refine map_congr_left fun term hterm => ?_
  rw [any_fieldStreams (mem_extendingTerms.mp (mem_of_mem_take hterm)).2]

lemma any_expansionWindow {scan : ℕ} (hscan : 2 ≤ scan) (contexts : List PrefixSearchContext)
    (plan : LexicalQueryPlan) (p : Text) :
    ((expansionWindow contexts plan p scan).any fun entry => entry.1 ≠ p) =
      (extendingTerms plan (vocabulary contexts) p).any (· ≠ p) := by
  have hiff := exists_ne_noteStreams (unionOf_extendingTerms contexts plan p) hscan p
  rw [Bool.eq_iff_iff, any_eq_true, any_eq_true, expansionWindow_eq]
  simpa using hiff

@[simp] lemma selectExpansions_zero (window : List (Text × Bool)) :
    selectExpansions window 0 = [] := by
  simp [selectExpansions, sortBy]

@[simp] lemma extendingTerms_nil (plan : LexicalQueryPlan) (p : Text) :
    extendingTerms plan (vocabulary []) p = [] := by
  have hnone : ((prefixFields plan).flatMap (vocabulary [])) = [] := by
    simp [vocabulary]
  rw [extendingTerms, hnone]
  rfl

/-- There are prefix fields, and their texts are cut into terms. -/
structure AnalyzedPrefixes (plan : LexicalQueryPlan) : Prop where
  nonempty : plan.fieldGroups.prefixes ≠ []
  analyzed : ∀ field ∈ plan.fieldGroups.prefixes, field ≠ .contentIdentifiers

lemma AnalyzedPrefixes.of_mem (h : AnalyzedPrefixes plan) {field : NativeField}
    (hfield : field ∈ prefixFields plan) : field.isAnalyzed = true := by
  obtain ⟨declared, hdeclared, rfl⟩ := mem_map.mp hfield
  have hne := h.analyzed declared hdeclared
  cases declared <;> first | rfl | exact absurd rfl hne

lemma analyzedPrefixes_of_validate {T : CharTables} (h : validatePlan T plan = .ok ()) :
    AnalyzedPrefixes plan := by
  have hgroups : plan.fieldGroups = fieldGroupsOf plan.kind plan.scope := validatePlan_groups h
  have hall : ∀ (kind : QueryPlanKind) (scope : Option QueryPublicField),
      (fieldGroupsOf kind scope).prefixes ≠ [] ∧
        .contentIdentifiers ∉ (fieldGroupsOf kind scope).prefixes := by
    intro kind scope
    cases kind <;> cases scope with
    | none => decide
    | some field => cases field <;> decide
  obtain ⟨hnonempty, hanalyzed⟩ := hall plan.kind plan.scope
  rw [← hgroups] at hnonempty hanalyzed
  refine ⟨hnonempty, fun field hfield heq => ?_⟩
  rw [heq] at hfield
  exact hanalyzed hfield

lemma collectPrefixExpansions_eq (h : AnalyzedPrefixes plan) (analyze : Text → List Text)
    (contexts : List PrefixSearchContext) (term : Text) (limit : ℕ) {scan : ℕ} (hscan : 2 ≤ scan) :
    collectPrefixExpansions analyze contexts plan term limit scan =
      .ok (match analyze term with
        | [p] => expansionsOf plan (vocabulary contexts) p limit scan
        | _ => []) := by
  rw [collectPrefixExpansions]
  split
  · next hzero =>
    -- with nothing to keep or nowhere to look the vocabulary gives nothing either
    split
    · rcases hzero with rfl | rfl | rfl
      · simp [expansionsOf]
      · omega
      · simp [expansionsOf]
    · rfl
  · split
    · next hfields =>
      exact absurd (map_eq_nil_iff.mp hfields) h.nonempty
    · next analysisField rest hfields =>
      have hanalyzed : analysisField.isAnalyzed = true := by
        refine h.of_mem ?_
        rw [hfields]
        exact mem_cons_self
      have htext : analyzeText analyze analysisField term = analyze term := by
        rw [analyzeText, if_pos hanalyzed]
      rw [htext]
      split
      · next p _ =>
        simp only [any_expansionWindow hscan, take_expansionWindow, expansionsOf]
        split <;> rfl
      · rfl

/-- Two arrangements of one vocabulary in fields, indexes and segments. -/
structure SameVocabulary (plan plan' : LexicalQueryPlan)
    (contexts contexts' : List PrefixSearchContext) : Prop where
  fields : ∀ field, field ∈ prefixFields plan ↔ field ∈ prefixFields plan'
  metadata : ∀ field, field ∈ metadataFields plan ↔ field ∈ metadataFields plan'
  terms : ∀ field ∈ prefixFields plan, ∀ term,
    term ∈ vocabulary contexts field ↔ term ∈ vocabulary contexts' field

section

variable (h : SameVocabulary plan plan' contexts contexts')

include h

lemma SameVocabulary.extendingTerms_eq (p : Text) :
    extendingTerms plan (vocabulary contexts) p = extendingTerms plan' (vocabulary contexts') p := by
  have hsub := (unionOf_extendingTerms contexts plan p).ascending
  have hsub' := (unionOf_extendingTerms contexts' plan' p).ascending
  have hmem : ∀ term, term ∈ extendingTerms plan (vocabulary contexts) p ↔
      term ∈ extendingTerms plan' (vocabulary contexts') p := by
    intro term
    rw [mem_extendingTerms, mem_extendingTerms]
    refine and_congr_left fun _ => exists_congr fun field => ?_
    rw [← h.fields field]
    exact and_congr_right fun hfield => h.terms field hfield term
  have hpart := hsub.sublist_of_subset hsub' fun term => (hmem term).mp
  have hwhole := hsub'.sublist_of_subset hsub fun term => (hmem term).mpr
  exact hpart.antisymm hwhole

lemma SameVocabulary.inMetadata_eq (term : Text) :
    inMetadata plan (vocabulary contexts) term = inMetadata plan' (vocabulary contexts') term := by
  rw [Bool.eq_iff_iff, inMetadata, inMetadata, any_eq_true, any_eq_true]
  refine exists_congr fun field => ?_
  simp only [Bool.and_eq_true, decide_eq_true_iff, ← h.fields field, ← h.metadata field]
  exact and_congr_right fun hfield => and_congr_right fun _ => h.terms field hfield term

lemma SameVocabulary.expansionsOf_eq (p : Text) (limit scan : ℕ) :
    expansionsOf plan (vocabulary contexts) p limit scan =
      expansionsOf plan' (vocabulary contexts') p limit scan := by
  simp only [expansionsOf, h.extendingTerms_eq p, h.inMetadata_eq]

end

/-- Arrangements of one vocabulary expand a prefix alike, and as the vocabulary does. -/
theorem expansions_layout_independent (hplan : AnalyzedPrefixes plan)
    (hplan' : AnalyzedPrefixes plan') (h : SameVocabulary plan plan' contexts contexts')
    (analyze : Text → List Text) (term : Text) (limit : ℕ) {scan : ℕ} (hscan : 2 ≤ scan) :
    collectPrefixExpansions analyze contexts plan term limit scan =
        collectPrefixExpansions analyze contexts' plan' term limit scan ∧
      collectPrefixExpansions analyze contexts plan term limit scan =
        .ok (match analyze term with
          | [p] => expansionsOf plan (vocabulary contexts) p limit scan
          | _ => []) := by
  refine ⟨?_, collectPrefixExpansions_eq hplan analyze contexts term limit hscan⟩
  rw [collectPrefixExpansions_eq hplan analyze contexts term limit hscan,
    collectPrefixExpansions_eq hplan' analyze contexts' term limit hscan]
  split
  · next p _ => rw [h.expansionsOf_eq p limit scan]
  · rfl

end

def TermDictionary.ofTerms (terms : List Text) : TermDictionary where
  terms := sortBy compare terms.dedup
  ascending := ascending_sortBy (nodup_dedup terms)

/-- A segment with terms in the title and in the content. -/
def SegmentReader.ofTerms (title content : List Text) : SegmentReader where
  invertedIndex
    | .title => .ofTerms title
    | .content => .ofTerms content
    | _ => .ofTerms []

/-- Four words in two segments of one index. -/
def adoptContexts : List PrefixSearchContext :=
  [⟨[.ofTerms ["adoptable".toList] ["adopted".toList, "adoption".toList],
    .ofTerms [] ["adoptee".toList]]⟩]

/-- The same words in one segment of each of two indexes. -/
def adoptContextsSplit : List PrefixSearchContext :=
  [⟨[.ofTerms [] ["adopted".toList, "adoptee".toList]]⟩,
    ⟨[.ofTerms ["adoptable".toList] ["adoption".toList, "adopted".toList]]⟩]

theorem expansions_layout_independent_adopt :
    collectPrefixExpansions (fun text => [text]) adoptContexts expandedPlan "adop".toList 2 3 =
        collectPrefixExpansions (fun text => [text]) adoptContextsSplit expandedPlan
          "adop".toList 2 3 ∧
      collectPrefixExpansions (fun text => [text]) adoptContexts expandedPlan "adop".toList 2 3 =
        .ok (expansionsOf expandedPlan (vocabulary adoptContexts) "adop".toList 2 3) := by
  have hplan : AnalyzedPrefixes expandedPlan := ⟨by decide, by decide⟩
  have hsame : SameVocabulary expandedPlan expandedPlan adoptContexts adoptContextsSplit := by
    refine ⟨fun _ => Iff.rfl, fun _ => Iff.rfl, fun field _ term => ?_⟩
    cases field <;>
      simp [vocabulary, adoptContexts, adoptContextsSplit, SegmentReader.ofTerms,
        TermDictionary.ofTerms]
    tauto
  exact expansions_layout_independent hplan hplan hsame (fun text => [text]) "adop".toList 2
    (by decide : 2 ≤ 3)

-- `adoption` is beyond the third term, and `adopted` stands before `adoptee`
example : expansionsOf expandedPlan (vocabulary adoptContexts) "adop".toList 2 3 =
    ["adoptable".toList, "adopted".toList] := by
  decide +kernel

end Kwiry
