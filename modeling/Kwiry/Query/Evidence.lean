import Mathlib.Data.List.Dedup
import Mathlib.Data.List.Perm.Subperm
import Kwiry.Query.Preparation

/-!
# Evidence Finalization

`finalize_evidence`: the observations of an index turn a prepared plan into a ladder of evidence
stages, or into an empty plan. The ladder is validated again, against stages derived anew from the
supported terms.
-/

namespace Kwiry

open Foundations List

variable (T : CharTables)

/-! ## §1 Observations -/

def promoteIntent (anchors : List ℕ) (entry : QueryTermIntent × ℕ) : QueryTermIntent :=
  if entry.2 ∈ anchors then { entry.1 with role := .requiredIdentifierAnchor } else entry.1

def promoteIdentifierCandidate (plan : LexicalQueryPlan) : LexicalQueryPlan :=
  let anchors := lowercaseIdentifierAnchorIndexes T plan.query plan.terms
  { plan with
    kind := .identifier
    matchOperator := .all
    termIntents := plan.termIntents.zipIdx.map (promoteIntent anchors) }

def observeIdentifier (plan : LexicalQueryPlan) (matched : Option Bool) :
    Except QueryPlanError LexicalQueryPlan :=
  match plan.metadataProbe, matched with
  | some _, none => .error (invalidPlan "identifier metadata probe observation is required")
  | some _, some true => .ok (promoteIdentifierCandidate T { plan with metadataProbe := none })
  | some _, some false => .ok { plan with metadataProbe := none }
  | none, some _ => .error (invalidPlan "unexpected identifier metadata probe observation")
  | none, none => .ok plan

/-- The support an observation gives to a term. -/
def withSupport (intent : QueryTermIntent) (observation : QueryTermSupportObservation) :
    QueryTermIntent :=
  { intent with support := if 0 < observation.documentFrequency then .useful else .unsupported }

def recordSupport (bounds : QueryBounds)
    (entry : (QueryTermSupportProbe × QueryTermSupportObservation) × QueryTermIntent) :
    Except QueryPlanError QueryTermIntent := do
  let ((probe, observation), intent) := entry
  rejectIf (observation.probeId ≠ probe.probeId ∨ observation.termIndex ≠ probe.termIndex ∨
      intent.index ≠ probe.termIndex ∨ intent.text ≠ probe.term)
    (invalidPlan "term support observation does not match its requested probe")
  rejectIf (bounds.maxPrefixExpansionsPerTerm < observation.prefixExpansions)
    (invalidPlan "prefix expansion observation exceeds its bound")
  .ok (withSupport intent observation)

def recordSupports (plan : LexicalQueryPlan) (observations : List QueryTermSupportObservation) :
    Except QueryPlanError LexicalQueryPlan := do
  rejectIf (observations.length ≠ plan.supportProbes.length)
    (invalidPlan "term support observations must exactly match requested probes")
  let observed ← ((plan.supportProbes.zip observations).zip plan.termIntents).mapM
    (recordSupport plan.bounds)
  .ok { plan with
    termIntents := observed ++ plan.termIntents.drop observed.length
    supportProbes := []
    evidenceStages := [] }

/-! ## §2 The ladder -/

/-- A stage before it is pushed; pushing gives it its ordinal. -/
structure StageDraft where
  kind : QueryEvidenceStageKind
  condition : QueryEvidenceStageCondition
  fieldGroup : QueryFieldGroup
  (requiredTermIndexes prefixTermIndexes : List ℕ)
  minimumOptionalMatches : ℕ

def StageDraft.stage (draft : StageDraft) (maxCandidates ordinal : ℕ) : QueryEvidenceStage where
  ordinal
  kind := draft.kind
  condition := draft.condition
  fieldGroup := draft.fieldGroup
  requiredTermIndexes := draft.requiredTermIndexes
  prefixTermIndexes := draft.prefixTermIndexes
  maxCandidates
  minimumOptionalMatches := draft.minimumOptionalMatches

def pushStage (maxCandidates : ℕ) (stages : List QueryEvidenceStage) (draft : StageDraft) :
    List QueryEvidenceStage :=
  stages ++ [draft.stage maxCandidates (stages.length % 2 ^ 8)]

section

variable (plan : LexicalQueryPlan)

/-- The terms a prefix stage may expand: optional, long enough, and observed to have expansions. -/
def prefixIndexes (observations : List QueryTermSupportObservation) : List ℕ :=
  indexesOf ((((plan.termIntents.zip observations).filter fun entry =>
    entry.1.isOptional && plan.bounds.minPrefixChars ≤ entry.1.text.length &&
      0 < entry.2.prefixExpansions).take plan.bounds.maxPrefixTerms).map (·.1))

/-- The stages in the order they are pushed. -/
def ladderDrafts (prefixes : List ℕ) : List StageDraft :=
  let required := prefixStageRequiredIndexes (relaxedIndexes plan.termIntents plan.bounds) prefixes
  (if plan.exactIntent.isSome then [⟨.exactMetadata, .always, .exact, [], [], 0⟩] else []) ++
    (if plan.phraseIntent.isSome then [⟨.exactPhrase, .always, .phrase, [], [], 0⟩] else []) ++
    (if prefixes ≠ [] ∧ plan.fieldGroups.prefixMetadata ≠ [] then
      [⟨.prefixMetadata, .always, .prefixMetadata, required, prefixes, 0⟩] else []) ++
    [⟨.allTerms, .always, .searchableText, indexesOf plan.termIntents, [], 0⟩] ++
    (if prefixes ≠ [] then [⟨.prefixes, .always, .prefixes, required, prefixes, 0⟩] else []) ++
    (match partialCoverageStage plan.termIntents plan.bounds prefixes with
      | none => []
      | some coverage => [⟨.partialCoverage, coverage.condition, .searchableText,
          coverage.requiredTermIndexes, coverage.prefixTermIndexes,
          coverage.minimumOptionalMatches⟩])

def withLadder (prefixes : List ℕ) : LexicalQueryPlan :=
  { plan with
    evidenceStages := (ladderDrafts plan prefixes).foldl
      (pushStage plan.bounds.maxCandidatesPerStage) []
    execution := .ready }

/-- Anchors without support leave nothing to find. -/
def anchorUnsupported : Bool :=
  plan.termIntents.any fun intent => intent.isAnchor && !intent.isUseful

/-- The plan once its terms carry their support. -/
def concludeEvidence (observations : List QueryTermSupportObservation) : LexicalQueryPlan :=
  if anchorUnsupported plan then
    { plan with execution := .emptyNoEvidence }
  else
    let useful := indexesOf (plan.termIntents.filter (·.isUseful))
    let prefixes := prefixIndexes plan observations
    if useful = [] ∧ prefixes = [] then
      { plan with execution := .emptyNoEvidence }
    else
      withLadder plan prefixes

def finalizeEvidence (report : QueryEvidenceReport) :
    Except QueryPlanError LexicalQueryPlan := do
  validatePlan T plan
  rejectIf (report.schemaVersion ≠ lexicalQueryPlanSchemaVersion)
    (invalidPlan "evidence report schema version is unsupported")
  if plan.assistance = .explicitSyntaxBypass then do
    rejectIf (report.identifierProbeMatched.isSome ∨ report.termSupport ≠ [])
      (invalidPlan "explicit query evidence report must be empty")
    .ok plan
  else do
    let plan ← observeIdentifier T plan report.identifierProbeMatched
    let plan ← recordSupports plan report.termSupport
    let concluded := concludeEvidence plan report.termSupport
    validatePlan T concluded
    .ok concluded

end

variable {T}

/-! ## §3 Index lists

Indexes are positions, so every list of indexes picked from the intents in their order is strictly
increasing. -/

/-- The intents of a plan, each at the position its index names. -/
structure Indexed (intents : List QueryTermIntent) : Prop where
  index : ∀ (i : ℕ) (intent : QueryTermIntent), intents[i]? = some intent → intent.index = i
  count : intents.length ≤ maxTermSupportProbes

lemma strictlyIncreasing_of_pairwise {l : List ℕ} (h : l.Pairwise (· < ·)) :
    strictlyIncreasing l = true := by
  induction l with
  | nil => rfl
  | cons a rest ih =>
    cases rest with
    | nil => rfl
    | cons b rest =>
      obtain ⟨hhead, hrest⟩ := pairwise_cons.mp h
      have ih := ih hrest
      simp only [strictlyIncreasing, tail_cons] at ih ⊢
      rw [zip_cons_cons, all_cons, ih, Bool.and_true]
      exact decide_eq_true (hhead b mem_cons_self)

lemma orderedSet_of_pairwise {l : List ℕ} (h : l.Pairwise (· < ·)) : orderedSet l = l := by
  have hnodup : l.Nodup := h.imp Nat.ne_of_lt
  rw [orderedSet, Nodup.dedup hnodup]
  exact (h.imp Nat.le_of_lt).insertionSort_eq

namespace Indexed

variable {intents : List QueryTermIntent}

lemma indexesOf_eq (h : Indexed intents) : indexesOf intents = range intents.length := by
  refine ext_getElem? fun i => ?_
  rw [indexesOf, getElem?_map]
  rcases lt_or_ge i intents.length with hi | hi
  · rw [getElem?_eq_getElem hi, getElem?_range hi, Option.map_some,
      h.index i _ (getElem?_eq_getElem hi)]
  · rw [getElem?_eq_none hi, getElem?_eq_none (by simpa using hi)]
    rfl

lemma pairwise (h : Indexed intents) : (indexesOf intents).Pairwise (· < ·) := by
  rw [h.indexesOf_eq]
  exact pairwise_lt_range

/-- An index picks the intent it was taken from. -/
lemma getElem?_index (h : Indexed intents) {intent : QueryTermIntent} (hmem : intent ∈ intents) :
    intents[intent.index]? = some intent := by
  obtain ⟨i, hi⟩ := mem_iff_getElem?.mp hmem
  rwa [h.index i intent hi]

end Indexed

lemma indexesOf_sublist {l intents : List QueryTermIntent} (h : l.Sublist intents) :
    (indexesOf l).Sublist (indexesOf intents) :=
  h.map _

lemma relaxedIndexes_eq {intents : List QueryTermIntent} (h : Indexed intents) :
    relaxedIndexes intents .lexicalV1 =
      indexesOf (intents.filter fun intent => intent.isAnchor || intent.isUseful) := by
  unfold relaxedIndexes
  rw [take_of_length_le]
  exact (length_filter_le _ _).trans h.count

/-- What a list of expanded terms satisfies. -/
structure PrefixTerms (intents : List QueryTermIntent) (prefixes : List ℕ) : Prop where
  sublist : prefixes.Sublist (indexesOf intents)
  optional : ∀ index ∈ prefixes, ∃ intent, intents[index]? = some intent ∧ intent.isOptional = true
  short : prefixes.length ≤ maxPrefixTerms

lemma map_fst_zip_sublist {A B : Type} (l : List A) (m : List B) :
    ((l.zip m).map Prod.fst).Sublist l := by
  induction l generalizing m with
  | nil => simp
  | cons a rest ih =>
    cases m with
    | nil => simp
    | cons b m => simpa using ih m

lemma prefixIndexes_spec {plan : LexicalQueryPlan} (h : Indexed plan.termIntents)
    (hbounds : plan.bounds = .lexicalV1) (observations : List QueryTermSupportObservation) :
    PrefixTerms plan.termIntents (prefixIndexes plan observations) := by
  have hsub : ∀ p n, ((((plan.termIntents.zip observations).filter p).take n).map (·.1)).Sublist
      plan.termIntents := by
    intro p n
    exact (((take_sublist _ _).trans filter_sublist).map _).trans (map_fst_zip_sublist _ _)
  refine ⟨indexesOf_sublist (hsub _ _), ?_, ?_⟩
  · intro index hindex
    obtain ⟨intent, hintent, rfl⟩ := mem_map.mp hindex
    obtain ⟨entry, hentry, rfl⟩ := mem_map.mp hintent
    have hkept := (mem_filter.mp (mem_of_mem_take hentry)).2
    simp only [Bool.and_eq_true] at hkept
    exact ⟨entry.1, h.getElem?_index ((hsub _ _).subset hintent), hkept.1.1⟩
  · simp only [prefixIndexes, indexesOf, length_map, length_take, hbounds]
    exact min_le_left _ _

/-! ## §4 Stages of the ladder -/

/-- What validation asks of the index lists of any stage. -/
structure TermLists (intents : List QueryTermIntent) (required prefixes : List ℕ) : Prop where
  required_sublist : required.Sublist (indexesOf intents)
  prefix_sublist : prefixes.Sublist (indexesOf intents)
  disjoint : ∀ index ∈ prefixes, index ∉ required

/-- What it asks of partial coverage besides. -/
structure CoverageCanonical (intents : List QueryTermIntent) (coverage : PartialCoverageStage) :
    Prop extends TermLists intents coverage.requiredTermIndexes coverage.prefixTermIndexes where
  nonempty : coverage.requiredTermIndexes ≠ [] ∨ coverage.prefixTermIndexes ≠ []
  anchors : ∀ index ∈ anchorIndexes intents, index ∈ coverage.requiredTermIndexes
  partial_cover : coverage.minimumOptionalMatches = 0 →
    coverage.requiredTermIndexes ≠ indexesOf intents

section Ladder

variable {intents : List QueryTermIntent} {prefixes : List ℕ}

/-- An anchor is no optional context. -/
theorem PrefixTerms.not_anchor (hp : PrefixTerms intents prefixes) (h : Indexed intents)
    {intent : QueryTermIntent} (hmem : intent ∈ intents) (hindex : intent.index ∈ prefixes) :
    intent.isAnchor = false := by
  obtain ⟨other, hother, hoptional⟩ := hp.optional _ hindex
  rw [h.getElem?_index hmem] at hother
  cases hother
  simp only [QueryTermIntent.isOptional, decide_eq_true_eq] at hoptional
  simp [QueryTermIntent.isAnchor, hoptional]

lemma anchors_subset {p : QueryTermIntent → Bool}
    (hp : ∀ intent, intent.isAnchor = true → p intent = true) :
    ∀ index ∈ anchorIndexes intents, index ∈ indexesOf (intents.filter p) := by
  intro index hindex
  obtain ⟨intent, hintent, rfl⟩ := mem_map.mp hindex
  obtain ⟨hmem, hanchor⟩ := mem_filter.mp hintent
  exact mem_map.mpr ⟨intent, mem_filter.mpr ⟨hmem, hp intent hanchor⟩, rfl⟩

lemma partialCoverageStage_spec (h : Indexed intents) (hp : PrefixTerms intents prefixes)
    {coverage : PartialCoverageStage}
    (hcoverage : partialCoverageStage intents .lexicalV1 prefixes = some coverage) :
    CoverageCanonical intents coverage := by
  unfold partialCoverageStage at hcoverage
  simp only [relaxedIndexes_eq h] at hcoverage
  split at hcoverage
  · split at hcoverage
    · rename_i hrelaxed
      cases hcoverage
      exact {
        required_sublist := indexesOf_sublist filter_sublist
        prefix_sublist := nil_sublist _
        disjoint := fun index hindex => absurd hindex not_mem_nil
        nonempty := .inl hrelaxed.1
        anchors := anchors_subset fun intent hanchor => by simp [hanchor]
        partial_cover := fun _ => hrelaxed.2 }
    · cases hcoverage
  · split at hcoverage
    · cases hcoverage
    split at hcoverage
    · cases hcoverage
    split at hcoverage
    · cases hcoverage
    rename_i hnonempty
    have hincluded : ∀ included : List ℕ,
        orderedSet (prefixes.filter (· ∈ included)) = prefixes.filter (· ∈ included) :=
      fun included => orderedSet_of_pairwise (h.pairwise.sublist (filter_sublist.trans hp.sublist))
    simp only [hincluded] at hcoverage hnonempty
    cases hcoverage
    exact {
      required_sublist := indexesOf_sublist filter_sublist
      prefix_sublist := filter_sublist.trans hp.sublist
      disjoint := by
        intro index hindex hrequired
        obtain ⟨intent, hintent, rfl⟩ := mem_map.mp hrequired
        obtain ⟨hmem, hkept⟩ := mem_filter.mp hintent
        have hanchor := hp.not_anchor h hmem (mem_filter.mp hindex).1
        simp [hanchor, hindex] at hkept
      nonempty := by
        by_contra hnone
        rw [not_or, not_not, not_not] at hnone
        exact hnonempty hnone
      anchors := anchors_subset fun intent hanchor => by simp [hanchor]
      partial_cover := fun hzero => by simp at hzero }

/-! ## §5 The ladder is canonical -/

/-- A stage without its ordinal and bound. -/
def QueryEvidenceStage.draft (stage : QueryEvidenceStage) : StageDraft :=
  ⟨stage.kind, stage.condition, stage.fieldGroup, stage.requiredTermIndexes,
    stage.prefixTermIndexes, stage.minimumOptionalMatches⟩

lemma foldl_pushStage (maxCandidates : ℕ) (drafts : List StageDraft)
    (stages : List QueryEvidenceStage) :
    drafts.foldl (pushStage maxCandidates) stages = stages ++
      (drafts.zipIdx stages.length).map fun entry =>
        entry.1.stage maxCandidates (entry.2 % 2 ^ 8) := by
  induction drafts generalizing stages with
  | nil => simp
  | cons draft rest ih =>
    rw [foldl_cons, ih, zipIdx_cons]
    simp [pushStage]

variable {plan : LexicalQueryPlan}

section

variable (plan : LexicalQueryPlan) (prefixes : List ℕ)

lemma evidenceStages_withLadder :
    (withLadder plan prefixes).evidenceStages = (ladderDrafts plan prefixes).zipIdx.map fun entry =>
      entry.1.stage plan.bounds.maxCandidatesPerStage (entry.2 % 2 ^ 8) := by
  simp [withLadder, foldl_pushStage]

lemma draft_withLadder :
    (withLadder plan prefixes).evidenceStages.map QueryEvidenceStage.draft =
      ladderDrafts plan prefixes := by
  have hdraft : ∀ entry : StageDraft × ℕ,
      (entry.1.stage plan.bounds.maxCandidatesPerStage (entry.2 % 2 ^ 8)).draft = entry.1 :=
    fun _ => rfl
  rw [evidenceStages_withLadder, map_map]
  simp only [Function.comp_def, hdraft]
  exact zipIdx_map_fst 0 _

lemma length_ladderDrafts_le : (ladderDrafts plan prefixes).length ≤ maxEvidenceStages := by
  unfold ladderDrafts maxEvidenceStages
  simp only [length_append]
  split_ifs <;> cases partialCoverageStage plan.termIntents plan.bounds prefixes <;> simp

/-- The first stage of a kind, read off the drafts. -/
theorem find?_withLadder (kind : QueryEvidenceStageKind) :
    ((withLadder plan prefixes).evidenceStages.find? (·.kind = kind)).map QueryEvidenceStage.draft =
      (ladderDrafts plan prefixes).find? (·.kind = kind) := by
  rw [← draft_withLadder, find?_map]
  rfl

lemma canonicalPrefixIndexes_withLadder :
    canonicalPrefixIndexes (withLadder plan prefixes) = prefixes := by
  have hfind : (ladderDrafts plan prefixes).find? (·.kind = .prefixes) = none ∧ prefixes = [] ∨
      ∃ draft, (ladderDrafts plan prefixes).find? (·.kind = .prefixes) = some draft ∧
        draft.prefixTermIndexes = prefixes := by
    by_cases hprefixes : prefixes = []
    · refine .inl ⟨?_, hprefixes⟩
      subst hprefixes
      unfold ladderDrafts
      simp only [find?_append]
      split_ifs <;> cases partialCoverageStage plan.termIntents plan.bounds [] <;> simp_all
    · refine .inr ?_
      unfold ladderDrafts
      simp only [find?_append]
      split_ifs <;> simp_all
  have hstage := find?_withLadder plan prefixes .prefixes
  unfold canonicalPrefixIndexes
  rcases hfind with ⟨hnone, hprefixes⟩ | ⟨draft, hsome, hprefixes⟩
  · rw [hnone, Option.map_eq_none_iff] at hstage
    rw [hstage, hprefixes]
  · rw [hsome] at hstage
    obtain ⟨stage, hfound, rfl⟩ := Option.map_eq_some_iff.mp hstage
    rw [hfound]
    exact hprefixes

lemma hasPrefixMetadata_withLadder :
    hasPrefixMetadata (withLadder plan prefixes) =
      (prefixes ≠ [] && plan.fieldGroups.prefixMetadata ≠ []) := by
  have hany : hasPrefixMetadata (withLadder plan prefixes) =
      (ladderDrafts plan prefixes).any (·.kind = .prefixMetadata) := by
    rw [← draft_withLadder, any_map]
    rfl
  rw [hany]
  unfold ladderDrafts
  simp only [any_append]
  split_ifs <;> cases partialCoverageStage plan.termIntents plan.bounds prefixes <;> simp_all

lemma expectedKinds_withLadder :
    expectedKinds (withLadder plan prefixes) = (ladderDrafts plan prefixes).map (·.kind) := by
  simp only [expectedKinds, canonicalPrefixIndexes_withLadder, hasPrefixMetadata_withLadder]
  unfold ladderDrafts withLadder
  simp only [map_append]
  cases hcoverage : partialCoverageStage plan.termIntents plan.bounds prefixes <;>
    split_ifs <;> simp_all

end

/-- What validation asks of a stage besides its place. -/
structure DraftCanonical (plan : LexicalQueryPlan) (draft : StageDraft) : Prop extends
    TermLists plan.termIntents draft.requiredTermIndexes draft.prefixTermIndexes where
  condition : draft.condition = expectedCondition plan draft.kind
  threshold : draft.kind = .partialCoverage ∨ draft.minimumOptionalMatches = 0
  consistent : ∀ maxCandidates ordinal,
    stageInconsistent plan (draft.stage maxCandidates ordinal) = false

lemma TermLists.nil (intents : List QueryTermIntent) : TermLists intents [] [] :=
  ⟨nil_sublist _, nil_sublist _, fun _ h => absurd h not_mem_nil⟩

lemma TermLists.length_le {required : List ℕ} (hlists : TermLists intents required prefixes)
    (h : Indexed intents) : required.length + prefixes.length ≤ maxPartialCoverageTerms := by
  have hnodup : (indexesOf intents).Nodup := h.pairwise.imp Nat.ne_of_lt
  have happend : (required ++ prefixes).Nodup := nodup_append.mpr
    ⟨hnodup.sublist hlists.required_sublist, hnodup.sublist hlists.prefix_sublist,
      fun a ha b hb hab => hlists.disjoint b hb (hab ▸ ha)⟩
  have hsubset : required ++ prefixes ⊆ indexesOf intents :=
    append_subset.mpr ⟨hlists.required_sublist.subset, hlists.prefix_sublist.subset⟩
  have hle := (subperm_of_subset happend hsubset).length_le
  rw [length_append] at hle
  refine hle.trans ?_
  rw [indexesOf, length_map]
  exact h.count

lemma prefixStage_lists (hp : PrefixTerms plan.termIntents prefixes) :
    TermLists plan.termIntents (prefixStageRequiredIndexes
      (indexesOf (plan.termIntents.filter fun intent => intent.isAnchor || intent.isUseful))
      prefixes) prefixes where
  required_sublist := filter_sublist.trans (indexesOf_sublist filter_sublist)
  prefix_sublist := hp.sublist
  disjoint := by
    intro index hindex hrequired
    simpa [hindex] using (mem_filter.mp hrequired).2

lemma prefixStage_anchors (h : Indexed plan.termIntents)
    (hp : PrefixTerms plan.termIntents prefixes) : ∀ index ∈ anchorIndexes plan.termIntents,
    index ∈ prefixStageRequiredIndexes
      (indexesOf (plan.termIntents.filter fun intent => intent.isAnchor || intent.isUseful))
      prefixes := by
  intro index hindex
  refine mem_filter.mpr ⟨anchors_subset (fun intent hanchor => by simp [hanchor]) index hindex, ?_⟩
  obtain ⟨intent, hintent, rfl⟩ := mem_map.mp hindex
  obtain ⟨hmem, hanchor⟩ := mem_filter.mp hintent
  simp only [decide_eq_true_eq]
  intro hexpanded
  rw [hp.not_anchor h hmem hexpanded] at hanchor
  cases hanchor

lemma prefixStage_optional (hp : PrefixTerms plan.termIntents prefixes) :
    prefixes.any (isNotExpandable plan.termIntents) = false := by
  rw [any_eq_false]
  intro index hindex
  obtain ⟨intent, hintent, hoptional⟩ := hp.optional index hindex
  simpa [isNotExpandable, hintent, QueryTermIntent.isOptional] using hoptional

lemma prefixStage_consistent {stage : QueryEvidenceStage}
    (hkind : stage.kind = .prefixMetadata ∧ stage.fieldGroup = .prefixMetadata ∨
      stage.kind = .prefixes ∧ stage.fieldGroup = .prefixes)
    (hrequired : stage.requiredTermIndexes = prefixStageRequiredIndexes
      (relaxedIndexes plan.termIntents plan.bounds) stage.prefixTermIndexes)
    (hcanonical : stage.prefixTermIndexes = canonicalPrefixIndexes plan)
    (hne : stage.prefixTermIndexes ≠ [])
    (hshort : stage.prefixTermIndexes.length ≤ plan.bounds.maxPrefixTerms)
    (hkept : ∀ index ∈ anchorIndexes plan.termIntents, index ∈ stage.requiredTermIndexes)
    (hoptional : stage.prefixTermIndexes.any (isNotExpandable plan.termIntents) = false) :
    stageInconsistent plan stage = false := by
  have hanchors : anchorsKept plan stage = true :=
    all_eq_true.mpr fun index hindex => decide_eq_true (hkept index hindex)
  rcases hkind with ⟨hkind, hgroup⟩ | ⟨hkind, hgroup⟩ <;>
    simp [stageInconsistent, hkind, hgroup, ← hrequired, ← hcanonical, hne, hshort, hanchors,
      -any_eq_false, hoptional]

lemma coverageStage_consistent {stage : QueryEvidenceStage} {coverage : PartialCoverageStage}
    (hkind : stage.kind = .partialCoverage) (hgroup : stage.fieldGroup = .searchableText)
    (hcoverage : partialCoverageStage plan.termIntents plan.bounds (canonicalPrefixIndexes plan) =
      some coverage) (hsame : stage.requiredTermIndexes = coverage.requiredTermIndexes ∧
      stage.prefixTermIndexes = coverage.prefixTermIndexes ∧
      stage.minimumOptionalMatches = coverage.minimumOptionalMatches)
    (hspec : CoverageCanonical plan.termIntents coverage)
    (hlength : coverage.requiredTermIndexes.length + coverage.prefixTermIndexes.length ≤
      plan.bounds.maxPartialCoverageTerms) : stageInconsistent plan stage = false := by
  obtain ⟨hrequired, hleading, hminimum⟩ := hsame
  have hanchors : anchorsKept plan stage = true :=
    all_eq_true.mpr fun index hindex =>
      decide_eq_true (hrequired ▸ hspec.anchors index hindex)
  have hempty := hspec.nonempty
  have hpart := hspec.partial_cover
  simp only [stageInconsistent, hkind, hgroup, hcoverage, differsFromCoverage, hrequired, hleading,
    hminimum, hanchors]
  rw [Bool.eq_false_iff]
  simp only [ne_eq, not_true_eq_false, decide_false, Bool.or_false, Bool.false_or, Bool.not_true,
    Bool.or_eq_true, Bool.and_eq_true, decide_eq_true_eq, not_or, not_and, not_lt]
  refine ⟨⟨fun hnil hnil' => ?_, hpart⟩, hlength⟩
  rcases hempty with hne | hne
  · exact hne hnil
  · exact hne hnil'

lemma draftCanonical_of_mem (h : Indexed plan.termIntents) (hbounds : plan.bounds = .lexicalV1)
    (hp : PrefixTerms plan.termIntents prefixes) {draft : StageDraft}
    (hmem : draft ∈ ladderDrafts plan prefixes) :
    DraftCanonical (withLadder plan prefixes) draft := by
  have hcanonical := canonicalPrefixIndexes_withLadder plan prefixes
  have hintents : (withLadder plan prefixes).termIntents = plan.termIntents := rfl
  have hplan : (withLadder plan prefixes).bounds = .lexicalV1 := hbounds
  have hrelaxed := relaxedIndexes_eq h
  have hshort : prefixes.length ≤ (withLadder plan prefixes).bounds.maxPrefixTerms := by
    rw [hplan]
    exact hp.short
  have hrequired : prefixStageRequiredIndexes
      (indexesOf (plan.termIntents.filter fun intent => intent.isAnchor || intent.isUseful))
      prefixes = prefixStageRequiredIndexes
        (relaxedIndexes (withLadder plan prefixes).termIntents (withLadder plan prefixes).bounds)
        prefixes := by
    rw [hintents, hplan, hrelaxed]
  simp only [ladderDrafts, mem_append, hbounds, hrelaxed] at hmem
  rcases hmem with ((((hmem | hmem) | hmem) | hmem) | hmem) | hmem
  · -- exact metadata
    obtain ⟨hexact, rfl⟩ := by simpa using hmem
    exact { TermLists.nil _ with
      condition := rfl
      threshold := .inr rfl
      consistent := fun _ _ => by simp [stageInconsistent, StageDraft.stage, withLadder, hexact] }
  · -- exact phrase
    obtain ⟨hphrase, rfl⟩ := by simpa using hmem
    exact { TermLists.nil _ with
      condition := rfl
      threshold := .inr rfl
      consistent := fun _ _ => by simp [stageInconsistent, StageDraft.stage, withLadder, hphrase] }
  · -- prefix metadata
    obtain ⟨⟨hne, -⟩, rfl⟩ := by simpa using hmem
    exact { prefixStage_lists hp with
      condition := rfl
      threshold := .inr rfl
      consistent := fun _ _ => prefixStage_consistent (.inl ⟨rfl, rfl⟩) hrequired hcanonical.symm
        hne hshort (prefixStage_anchors h hp) (prefixStage_optional hp) }

  · -- all terms
    obtain rfl := by simpa using hmem
    exact {
      required_sublist := Sublist.refl _
      prefix_sublist := nil_sublist _
      disjoint := fun _ hindex => absurd hindex not_mem_nil
      condition := rfl
      threshold := .inr rfl
      consistent := fun _ _ => by simp [stageInconsistent, StageDraft.stage, withLadder] }
  · -- prefixes
    obtain ⟨hne, rfl⟩ := by simpa using hmem
    exact { prefixStage_lists hp with
      condition := rfl
      threshold := .inr rfl
      consistent := fun _ _ => prefixStage_consistent (.inr ⟨rfl, rfl⟩) hrequired hcanonical.symm
        hne hshort (prefixStage_anchors h hp) (prefixStage_optional hp) }

  · -- partial coverage
    cases hcoverage : partialCoverageStage plan.termIntents .lexicalV1 prefixes with
    | none => simp [hcoverage] at hmem
    | some coverage =>
      obtain rfl := by simpa [hcoverage] using hmem
      have hspec := partialCoverageStage_spec h hp hcoverage
      exact { hspec.toTermLists with
        condition := by
          simp [expectedCondition, hcanonical, hintents, hplan, hcoverage]
        threshold := .inl rfl
        consistent := fun _ _ => coverageStage_consistent rfl rfl
          (by rw [hcanonical, hplan]; exact hcoverage) ⟨rfl, rfl, rfl⟩ hspec
          ((hspec.toTermLists.length_le h).trans_eq (by rw [hplan]; rfl)) }

lemma ladderDrafts_pairwise (plan : LexicalQueryPlan) (prefixes : List ℕ) :
    (ladderDrafts plan prefixes).Pairwise fun a b => a.kind.rank < b.kind.rank := by
  unfold ladderDrafts
  cases partialCoverageStage plan.termIntents plan.bounds prefixes <;>
    split_ifs <;> simp [QueryEvidenceStageKind.rank, QueryEvidenceStageKind.ctorIdx]

section

variable (h : Indexed plan.termIntents) (hbounds : plan.bounds = .lexicalV1)

include h hbounds

/-- One stage passes where it stands if it is canonical and its kind follows the one before. -/
theorem validateStage_ok {draft : StageDraft} (hdraft : DraftCanonical plan draft)
    (ordinal : ℕ) {previous : Option QueryEvidenceStageKind}
    (hprevious : ∀ kind ∈ previous, kind.rank < draft.kind.rank) :
    validateStage plan previous
      (draft.stage plan.bounds.maxCandidatesPerStage (ordinal % 2 ^ 8), ordinal) =
        .ok (some draft.kind) := by
  have hknown : ∀ {l : List ℕ}, l.Sublist (indexesOf plan.termIntents) →
      ∀ index ∈ l, index ∈ indexesOf plan.termIntents := fun hl index hindex => hl.subset hindex
  have hsorted : ∀ {l : List ℕ}, l.Sublist (indexesOf plan.termIntents) →
      strictlyIncreasing l = true :=
    fun hl => strictlyIncreasing_of_pairwise (h.pairwise.sublist hl)
  simp only [validateStage, bind_unit_ok_iff, rejectIf_ok]
  refine ⟨?_, ?_, ?_, ?_, ?_, ?_⟩
  · have hmax : plan.bounds.maxCandidatesPerStage = maxCandidatesPerStage := by rw [hbounds]; rfl
    cases previous with
    | none => simp [StageDraft.stage, hmax, maxCandidatesPerStage]
    | some kind => simpa [StageDraft.stage, hmax, maxCandidatesPerStage] using hprevious kind rfl
  · exact not_not.mpr hdraft.condition
  · rintro ⟨hkind, hminimum⟩
    rcases hdraft.threshold with hpart | hzero
    · exact hkind hpart
    · exact hminimum hzero
  · rw [Bool.not_eq_true, any_eq_false]
    intro index hindex
    simp only [decide_eq_true_eq, not_not]
    rcases mem_append.mp hindex with hindex | hindex
    · exact hknown hdraft.required_sublist index hindex
    · exact hknown hdraft.prefix_sublist index hindex
  · have hdisjoint := hdraft.disjoint
    have hrequired := hsorted hdraft.required_sublist
    have hprefixes := hsorted hdraft.prefix_sublist
    have hany : draft.prefixTermIndexes.any (· ∈ draft.requiredTermIndexes) = false :=
      any_eq_false.mpr fun index hindex => by simpa using hdisjoint index hindex
    change ¬ (!strictlyIncreasing draft.requiredTermIndexes ||
      !strictlyIncreasing draft.prefixTermIndexes ||
      draft.prefixTermIndexes.any (· ∈ draft.requiredTermIndexes)) = true
    rw [hrequired, hprefixes, hany]
    exact Bool.false_ne_true
  · rw [hdraft.consistent]
    exact ⟨Bool.false_ne_true, rfl⟩

lemma validateStage_fold {drafts : List StageDraft}
    (hdrafts : ∀ draft ∈ drafts, DraftCanonical plan draft)
    (hpairwise : drafts.Pairwise fun a b => a.kind.rank < b.kind.rank) (ordinal : ℕ)
    (previous : Option QueryEvidenceStageKind)
    (hprevious : ∀ kind ∈ previous, ∀ draft ∈ drafts, kind.rank < draft.kind.rank) :
    ∃ last, ((drafts.zipIdx ordinal).map fun entry =>
      (entry.1.stage plan.bounds.maxCandidatesPerStage (entry.2 % 2 ^ 8), entry.2)).foldlM
        (validateStage plan) previous = .ok last := by
  induction drafts generalizing ordinal previous with
  | nil => exact ⟨previous, rfl⟩
  | cons draft rest ih =>
    obtain ⟨hhead, hrest⟩ := pairwise_cons.mp hpairwise
    have hstage := validateStage_ok h hbounds (hdrafts draft mem_cons_self) ordinal
      (fun kind hkind => hprevious kind hkind draft mem_cons_self)
    obtain ⟨last, hlast⟩ := ih (fun d hd => hdrafts d (mem_cons_of_mem _ hd)) hrest
      (ordinal + 1) (some draft.kind) (by
        rintro kind hkind d hd
        cases hkind
        exact hhead d hd)
    refine ⟨last, ?_⟩
    rw [zipIdx_cons, map_cons, foldlM_cons, hstage]
    exact hlast

/-- The ladder passes the validation of stages. -/
lemma validateStages_ladder (hp : PrefixTerms plan.termIntents prefixes) :
    validateStages (withLadder plan prefixes) = .ok () := by
  simp only [validateStages, ↓bind_unit_ok_iff, rejectIf_ok, bind_ok_iff, exists_const, and_true]
  refine ⟨?_, ?_, ?_, ?_⟩
  · have hlength : (withLadder plan prefixes).evidenceStages.length =
        (ladderDrafts plan prefixes).length := by
      rw [← draft_withLadder, length_map]
    have hmax : (withLadder plan prefixes).bounds.maxEvidenceStages = maxEvidenceStages := by
      change plan.bounds.maxEvidenceStages = _
      rw [hbounds]
      rfl
    rw [hlength, hmax, not_lt]
    exact length_ladderDrafts_le plan prefixes
  · rw [hasPrefixMetadata_withLadder, canonicalPrefixIndexes_withLadder]
    exact not_not.mpr rfl
  · rw [expectedKinds_withLadder, ← draft_withLadder, map_map]
    exact not_not.mpr rfl
  · obtain ⟨last, hlast⟩ := validateStage_fold
      (show Indexed (withLadder plan prefixes).termIntents from h) hbounds
      (fun draft hdraft => draftCanonical_of_mem h hbounds hp hdraft)
      (ladderDrafts_pairwise plan prefixes) 0 none (by simp)
    have hzip : (withLadder plan prefixes).evidenceStages.zipIdx =
        ((ladderDrafts plan prefixes).zipIdx 0).map fun entry =>
          (entry.1.stage plan.bounds.maxCandidatesPerStage (entry.2 % 2 ^ 8), entry.2) := by
      rw [evidenceStages_withLadder]
      refine ext_getElem? fun i => ?_
      cases hget : (ladderDrafts plan prefixes)[i]? <;> simp [getElem?_zipIdx, hget]
    rw [hzip]
    exact ⟨last, hlast⟩

end

end Ladder

end Kwiry
