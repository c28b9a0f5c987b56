import Kwiry.Query.Finalization

/-!
# The Shape of Ready Plans

What passes validation is the ladder that planning builds: the kinds of the stages, their
conditions, fields, terms and thresholds follow from the terms and intents of the plan and from the
terms its prefix stage expands. Only the bound on the candidates of a stage is left open.
-/

namespace Kwiry

open Foundations List

variable {T : CharTables} {plan : LexicalQueryPlan}

/-! ## §1 Validation, read back -/

/-- What the checks of a stage leave of it. -/
structure StageChecked (plan : LexicalQueryPlan) (stage : QueryEvidenceStage) : Prop where
  candidates : stage.maxCandidates ≠ 0 ∧ stage.maxCandidates ≤ plan.bounds.maxCandidatesPerStage
  condition : stage.condition = expectedCondition plan stage.kind
  threshold : stage.kind ≠ .partialCoverage → stage.minimumOptionalMatches = 0
  disjoint : ∀ index ∈ stage.prefixTermIndexes, index ∉ stage.requiredTermIndexes
  consistent : stageInconsistent plan stage = false

variable {stage : QueryEvidenceStage}

lemma validateStage_checked {previous next : Option QueryEvidenceStageKind} {ordinal : ℕ}
    (h : validateStage plan previous (stage, ordinal) = .ok next) :
    stage.ordinal = ordinal % 2 ^ 8 ∧ StageChecked plan stage := by
  simp only [validateStage, bind_unit_ok_iff, rejectIf_ok, not_or, not_and, not_not, not_lt,
    Bool.not_eq_true, Bool.or_eq_false_iff] at h
  obtain ⟨⟨hordinal, hzero, hbound, -⟩, hcondition, hthreshold, -, ⟨-, hdisjoint⟩, hconsistent, -⟩ := h
  refine ⟨hordinal, ⟨hzero, hbound⟩, hcondition, hthreshold, ?_, hconsistent⟩
  intro index hindex hrequired
  have hnone := any_eq_false.mp hdisjoint index hindex
  simp [hrequired] at hnone

/-- What the checks of the stages leave of a plan. -/
structure StagesChecked (plan : LexicalQueryPlan) : Prop where
  count : plan.evidenceStages.length ≤ plan.bounds.maxEvidenceStages
  prefixMetadata : hasPrefixMetadata plan =
    (canonicalPrefixIndexes plan ≠ [] && plan.fieldGroups.prefixMetadata ≠ [])
  kinds : plan.evidenceStages.map (·.kind) = expectedKinds plan
  ordinals : ∀ (i : ℕ) (stage : QueryEvidenceStage), plan.evidenceStages[i]? = some stage →
    stage.ordinal = i % 2 ^ 8
  stages : ∀ stage ∈ plan.evidenceStages, StageChecked plan stage

lemma validateStages_checked (h : validateStages plan = .ok ()) : StagesChecked plan := by
  simp only [validateStages, bind_unit_ok_iff, rejectIf_ok, not_lt, not_not] at h
  obtain ⟨hcount, hleading, hkinds, hfold⟩ := h
  obtain ⟨last, hfold, -⟩ := bind_ok_iff.mp hfold
  have hstep : ∀ entry ∈ plan.evidenceStages.zipIdx,
      entry.1.ordinal = entry.2 % 2 ^ 8 ∧ StageChecked plan entry.1 := by
    intro entry hentry
    obtain ⟨before, after, hsplit⟩ := append_of_mem hentry
    rw [hsplit] at hfold
    obtain ⟨previous, next, -, hstage, -⟩ := foldlM_append_cons_ok _ hfold
    exact validateStage_checked hstage
  refine ⟨hcount, by simpa using hleading, hkinds, fun i stage hget => ?_, fun stage hmem => ?_⟩
  · exact (hstep (stage, i) (mem_zipIdx_iff_getElem?.mpr hget)).1
  · obtain ⟨i, hget⟩ := mem_iff_getElem?.mp hmem
    exact (hstep (stage, i) (mem_zipIdx_iff_getElem?.mpr hget)).2

/-- What validation leaves of a ready plan. -/
structure ReadyPlan (plan : LexicalQueryPlan) : Prop where
  assisted : plan.kind ≠ .explicit
  bounds : plan.bounds = .lexicalV1
  groups : plan.fieldGroups = .lexicalV2 plan.scope
  indexed : Indexed plan.termIntents
  stages : StagesChecked plan

lemma validatePlan_ready (h : validatePlan T plan = .ok ()) (hready : plan.execution = .ready) :
    ReadyPlan plan := by
  simp only [validatePlan, bind_unit_ok_iff] at h
  obtain ⟨hheader, hrest⟩ := h
  have hassisted : plan.kind ≠ .explicit := by
    intro hexplicit
    rw [if_pos hexplicit] at hrest
    simp [validateExplicit, hready] at hrest
  rw [if_neg hassisted] at hrest
  simp only [validateHeader, bind_unit_ok_iff, rejectIf_ok, not_not, ne_eq] at hheader
  obtain ⟨-, -, -, -, -, -, -, hgroups, hbounds, -, -⟩ := hheader
  simp only [validateAssisted, bind_unit_ok_iff, rejectIf_ok, not_or, not_lt, not_not,
    ne_eq] at hrest
  obtain ⟨-, ⟨hlength, hcount⟩, hintents, -, -, -, hexecution⟩ := hrest
  rw [forM_ok_iff] at hintents
  simp only [validateExecution, hready, bind_unit_ok_iff] at hexecution
  refine ⟨hassisted, hbounds, ?_, ⟨fun i intent hget => ?_, ?_⟩, validateStages_checked hexecution.2⟩
  · rw [hgroups, fieldGroupsOf, if_neg hassisted]
  · have hlt := (List.getElem?_eq_some_iff.mp hget).1
    have hterm : plan.terms[i]? = some (plan.terms.get ⟨i, hlength ▸ hlt⟩) :=
      getElem?_eq_getElem _
    have hentry := hintents _ (mem_zipIdx_iff_getElem?.mpr
      (getElem?_zip_eq_some.mpr ⟨hterm, hget⟩) :
        ((plan.terms.get ⟨i, hlength ▸ hlt⟩, intent), i) ∈ (plan.terms.zip plan.termIntents).zipIdx)
    simp only [validateTermIntent, bind_unit_ok_iff, rejectIf_ok, not_or, not_not, ne_eq] at hentry
    obtain ⟨⟨hindex, -⟩, -⟩ := hentry
    rw [hbounds] at hcount
    have hsmall : i < 2 ^ 16 := lt_of_lt_of_le hlt (hcount.trans (by decide))
    rw [hindex, Nat.mod_eq_of_lt hsmall]
  · rw [hbounds] at hcount
    exact hcount

/-! ## §2 The stages are the ladder -/

/-- The stage of a kind, as it is pushed. -/
def draftOf (plan : LexicalQueryPlan) (prefixes : List ℕ) : QueryEvidenceStageKind → StageDraft
  | .exactMetadata => ⟨.exactMetadata, .always, .exact, [], [], 0⟩
  | .exactPhrase => ⟨.exactPhrase, .always, .phrase, [], [], 0⟩
  | .prefixMetadata => ⟨.prefixMetadata, .always, .prefixMetadata,
      prefixStageRequiredIndexes (relaxedIndexes plan.termIntents plan.bounds) prefixes,
      prefixes, 0⟩
  | .allTerms => ⟨.allTerms, .always, .searchableText, indexesOf plan.termIntents, [], 0⟩
  | .prefixes => ⟨.prefixes, .always, .prefixes,
      prefixStageRequiredIndexes (relaxedIndexes plan.termIntents plan.bounds) prefixes,
      prefixes, 0⟩
  | .partialCoverage =>
    match partialCoverageStage plan.termIntents plan.bounds prefixes with
    | none => ⟨.partialCoverage, .always, .searchableText, [], [], 0⟩
    | some coverage => ⟨.partialCoverage, coverage.condition, .searchableText,
        coverage.requiredTermIndexes, coverage.prefixTermIndexes, coverage.minimumOptionalMatches⟩

lemma StageChecked.draft_eq (h : StageChecked plan stage) :
    stage.draft = draftOf plan (canonicalPrefixIndexes plan) stage.kind := by
  have hcondition := h.condition
  have hthreshold := h.threshold
  have hconsistent := h.consistent
  unfold stageInconsistent at hconsistent
  unfold expectedCondition at hcondition
  unfold QueryEvidenceStage.draft
  cases hkind : stage.kind with
  | exactMetadata | exactPhrase | prefixMetadata | allTerms | prefixes =>
    simp_all [draftOf]
  | partialCoverage =>
    cases hcoverage : partialCoverageStage plan.termIntents plan.bounds
        (canonicalPrefixIndexes plan) with
    | none => simp_all [differsFromCoverage]
    | some coverage => simp_all [draftOf, differsFromCoverage]

lemma map_draftOf_expectedKinds (h : StagesChecked plan) :
    (expectedKinds plan).map (draftOf plan (canonicalPrefixIndexes plan)) =
      ladderDrafts plan (canonicalPrefixIndexes plan) := by
  have hleading := h.prefixMetadata
  unfold expectedKinds ladderDrafts
  simp only [map_append, hleading, Bool.and_eq_true, decide_eq_true_eq]
  cases hcoverage : partialCoverageStage plan.termIntents plan.bounds
      (canonicalPrefixIndexes plan) <;>
    split_ifs <;> simp_all [draftOf]

lemma stages_eq_ladder (h : StagesChecked plan) :
    plan.evidenceStages.map QueryEvidenceStage.draft =
      ladderDrafts plan (canonicalPrefixIndexes plan) := by
  have hdrafts : plan.evidenceStages.map QueryEvidenceStage.draft =
      (plan.evidenceStages.map (·.kind)).map (draftOf plan (canonicalPrefixIndexes plan)) := by
    rw [map_map]
    exact map_congr_left fun stage hstage => (h.stages stage hstage).draft_eq
  rw [hdrafts, h.kinds, map_draftOf_expectedKinds h]

/-- A stage without its bound on candidates. -/
def QueryEvidenceStage.unbounded (stage : QueryEvidenceStage) : QueryEvidenceStage :=
  { stage with maxCandidates := 0 }

/-- **Validation is rigid**: two valid ready plans with the same scope, terms, exact and phrase
intents that expand the same terms have the same stages, up to their bounds on candidates, which
stay within the plan's. -/
theorem validate_rigid {plan' : LexicalQueryPlan}
    (hvalid : validatePlan T plan = .ok ()) (hvalid' : validatePlan T plan' = .ok ())
    (hready : plan.execution = .ready) (hready' : plan'.execution = .ready)
    (hscope : plan.scope = plan'.scope) (hintents : plan.termIntents = plan'.termIntents)
    (hexact : plan.exactIntent = plan'.exactIntent)
    (hphrase : plan.phraseIntent = plan'.phraseIntent)
    (hprefixes : canonicalPrefixIndexes plan = canonicalPrefixIndexes plan') :
    plan.evidenceStages.map QueryEvidenceStage.unbounded =
        plan'.evidenceStages.map QueryEvidenceStage.unbounded ∧
      ∀ stage ∈ plan.evidenceStages, 1 ≤ stage.maxCandidates ∧
        stage.maxCandidates ≤ plan.bounds.maxCandidatesPerStage := by
  have h := validatePlan_ready hvalid hready
  have h' := validatePlan_ready hvalid' hready'
  have hladder : plan.evidenceStages.map QueryEvidenceStage.draft =
      plan'.evidenceStages.map QueryEvidenceStage.draft := by
    rw [stages_eq_ladder h.stages, stages_eq_ladder h'.stages]
    unfold ladderDrafts
    rw [hprefixes, hintents, hexact, hphrase, h.bounds, h'.bounds, h.groups, h'.groups, hscope]
  refine ⟨ext_getElem? fun i => ?_, fun stage hstage => ?_⟩
  · have hdraft : (plan.evidenceStages.map QueryEvidenceStage.draft)[i]? =
        (plan'.evidenceStages.map QueryEvidenceStage.draft)[i]? := by rw [hladder]
    simp only [getElem?_map] at hdraft ⊢
    cases hget : plan.evidenceStages[i]? with
    | none =>
      rw [hget] at hdraft
      rw [Option.map_eq_none_iff.mp hdraft.symm]
    | some stage =>
      rw [hget] at hdraft
      obtain ⟨stage', hget', hsame⟩ := Option.map_eq_some_iff.mp hdraft.symm
      rw [hget', Option.map_some, Option.map_some, Option.some.injEq]
      have hordinal := h.stages.ordinals i stage hget
      have hordinal' := h'.stages.ordinals i stage' hget'
      unfold QueryEvidenceStage.draft at hsame
      unfold QueryEvidenceStage.unbounded
      cases stage
      cases stage'
      simp_all
  · obtain ⟨hzero, hbound⟩ := (h.stages.stages stage hstage).candidates
    exact ⟨Nat.one_le_iff_ne_zero.mpr hzero, hbound⟩

/-- Two words, the first of which has an expansion. -/
def expandedQuery : Text := "alpha beta".toList

def expandedPlan : LexicalQueryPlan :=
  draftPlan .latin expandedQuery ⟨expandedQuery, none, none⟩

def expandedReport : QueryEvidenceReport where
  schemaVersion := lexicalQueryPlanSchemaVersion
  identifierProbeMatched := none
  termSupport := [⟨0, 0, 1, 1⟩, ⟨1, 1, 1, 0⟩]

/-- The plan of these words with all six stages. -/
def expandedReady : LexicalQueryPlan :=
  withLadder { expandedPlan with
    termIntents := zipWith withSupport expandedPlan.termIntents expandedReport.termSupport
    supportProbes := [] } [0]

/-- The same plan with a bound of its own on each stage. -/
def boundedReady : LexicalQueryPlan :=
  { expandedReady with
    evidenceStages := expandedReady.evidenceStages.map fun stage => { stage with maxCandidates := 7 } }

theorem validate_rigid_expanded :
    expandedReady.evidenceStages.map QueryEvidenceStage.unbounded =
        boundedReady.evidenceStages.map QueryEvidenceStage.unbounded ∧
      ∀ stage ∈ expandedReady.evidenceStages, 1 ≤ stage.maxCandidates ∧
        stage.maxCandidates ≤ expandedReady.bounds.maxCandidatesPerStage :=
  validate_rigid (show validatePlan .latin expandedReady = .ok () by decide +kernel)
    (show validatePlan .latin boundedReady = .ok () by decide +kernel) rfl rfl rfl rfl rfl rfl
    (by decide +kernel)

/-! ## §3 What evidence makes of a plan -/

/-- The stages that require every anchor. -/
def QueryEvidenceStageKind.keepsAnchors : QueryEvidenceStageKind → Bool
  | .prefixMetadata | .allTerms | .prefixes | .partialCoverage => true
  | .exactMetadata | .exactPhrase => false

/-- The stages that expand terms instead of requiring them. -/
def QueryEvidenceStageKind.expands : QueryEvidenceStageKind → Bool
  | .prefixMetadata | .prefixes => true
  | _ => false

/-- The shape of a ready plan, its terms observed by a report. -/
structure ReadyShape (plan : LexicalQueryPlan) (report : QueryEvidenceReport) : Prop where
  kinds : (plan.evidenceStages.map (·.kind.rank)).Pairwise (· < ·)
  ordinals : plan.evidenceStages.map (·.ordinal) = range plan.evidenceStages.length
  allTerms : ∀ stage ∈ plan.evidenceStages, stage.kind = .allTerms →
    stage.requiredTermIndexes = indexesOf plan.termIntents
  anchors : ∀ stage ∈ plan.evidenceStages, ∀ intent ∈ plan.termIntents, intent.isAnchor = true →
    (stage.kind.keepsAnchors = true → intent.index ∈ stage.requiredTermIndexes) ∧
      intent.index ∉ stage.prefixTermIndexes
  disjoint : ∀ stage ∈ plan.evidenceStages, ∀ index ∈ stage.prefixTermIndexes,
    index ∉ stage.requiredTermIndexes
  supported : ∀ stage ∈ plan.evidenceStages, stage.kind.expands = true →
    ∀ entry ∈ plan.termIntents.zip report.termSupport, 0 < entry.2.documentFrequency →
      entry.1.index ∈ stage.requiredTermIndexes ∨ entry.1.index ∈ stage.prefixTermIndexes

lemma ite_sublist {A : Type} (p : Prop) [Decidable p] (a : A) :
    (if p then [a] else []).Sublist [a] := by
  split
  · exact Sublist.refl _
  · exact nil_sublist _

lemma expectedKinds_pairwise (plan : LexicalQueryPlan) :
    ((expectedKinds plan).map QueryEvidenceStageKind.rank).Pairwise (· < ·) := by
  have hsub : (expectedKinds plan).Sublist
      ([.exactMetadata] ++ [.exactPhrase] ++ [.prefixMetadata] ++ [.allTerms] ++ [.prefixes] ++
        [.partialCoverage]) :=
    (((((ite_sublist _ _).append (ite_sublist _ _)).append (ite_sublist _ _)).append
      (Sublist.refl _)).append (ite_sublist _ _)).append (ite_sublist _ _)
  have hall : (([.exactMetadata] ++ [.exactPhrase] ++ [.prefixMetadata] ++ [.allTerms] ++
      [.prefixes] ++ [.partialCoverage] : List QueryEvidenceStageKind).map
        QueryEvidenceStageKind.rank).Pairwise (· < ·) := by decide
  exact hall.sublist (hsub.map _)

lemma StagesChecked.ordinals_eq (h : StagesChecked plan) (hbounds : plan.bounds = .lexicalV1) :
    plan.evidenceStages.map (·.ordinal) = range plan.evidenceStages.length := by
  have hcount := h.count
  rw [hbounds] at hcount
  change plan.evidenceStages.length ≤ 6 at hcount
  refine ext_getElem? fun i => ?_
  rw [getElem?_map]
  rcases lt_or_ge i plan.evidenceStages.length with hi | hi
  · have hordinal := h.ordinals i _ (getElem?_eq_getElem hi)
    rw [getElem?_eq_getElem hi, getElem?_range hi, Option.map_some, hordinal,
      Nat.mod_eq_of_lt (by omega)]
  · rw [getElem?_eq_none hi, getElem?_eq_none (by simpa using hi)]
    rfl

/-- A checked stage of four kinds requires every anchor, and none expands one. -/
theorem StageChecked.anchors (h : StageChecked plan stage) {intent : QueryTermIntent}
    (hintent : intent ∈ plan.termIntents) (hanchor : intent.isAnchor = true) :
    (stage.kind.keepsAnchors = true → intent.index ∈ stage.requiredTermIndexes) ∧
      intent.index ∉ stage.prefixTermIndexes := by
  have hmem : intent.index ∈ anchorIndexes plan.termIntents :=
    mem_map_of_mem (mem_filter.mpr ⟨hintent, hanchor⟩)
  have hall : intent.index ∈ indexesOf plan.termIntents := mem_map_of_mem hintent
  have hkept : anchorsKept plan stage = true → intent.index ∈ stage.requiredTermIndexes :=
    fun hkept => by simpa using all_eq_true.mp hkept _ hmem
  have hconsistent := h.consistent
  unfold stageInconsistent at hconsistent
  have hrequired : stage.kind.keepsAnchors = true → intent.index ∈ stage.requiredTermIndexes := by
    cases hkind : stage.kind <;> simp_all [QueryEvidenceStageKind.keepsAnchors]
  refine ⟨hrequired, ?_⟩
  cases hkeeps : stage.kind.keepsAnchors with
  | true => exact fun hleading => h.disjoint _ hleading (hrequired hkeeps)
  | false => cases hkind : stage.kind <;> simp_all [QueryEvidenceStageKind.keepsAnchors]

lemma getElem?_forall₂ {A B : Type} {R : A → B → Prop} {items : List A}
    {results : List B} (h : List.Forall₂ R items results) {i : ℕ} {b : B}
    (hb : results[i]? = some b) : ∃ a, items[i]? = some a ∧ R a b := by
  induction h generalizing i with
  | nil => cases hb
  | cons hhead _ ih =>
    cases i with
    | zero =>
      cases hb
      exact ⟨_, rfl, hhead⟩
    | succ i => exact ih hb

/-- Every observation gives its term its support. -/
theorem recordSupports_observed {resolved : LexicalQueryPlan}
    {observations : List QueryTermSupportObservation}
    (h : recordSupports plan observations = .ok resolved) :
    observations.length = plan.supportProbes.length ∧
      resolved.termIntents.length = plan.termIntents.length ∧
      ∀ entry ∈ resolved.termIntents.zip observations,
        ∃ before, entry.1 = withSupport before entry.2 := by
  simp only [recordSupports, bind_unit_ok_iff, rejectIf_ok, not_not, ne_eq] at h
  obtain ⟨hcount, h⟩ := h
  obtain ⟨observed, hmap, hresolved⟩ := bind_ok_iff.mp h
  obtain rfl := (Except.ok.inj hresolved).symm
  have hforall := mapM_ok_iff.mp hmap
  have hlength : observed.length = min observations.length plan.termIntents.length := by
    rw [← hforall.length_eq, length_zip, length_zip, hcount, min_self]
  refine ⟨hcount, ?_, fun entry hentry => ?_⟩
  · rw [length_append, length_drop, hlength]
    omega
  · obtain ⟨i, hi⟩ := mem_iff_getElem?.mp hentry
    obtain ⟨hintent, hobservation⟩ := getElem?_zip_eq_some.mp hi
    have hbound := (List.getElem?_eq_some_iff.mp hobservation).1
    rw [getElem?_append] at hintent
    split at hintent
    · next hlt =>
      obtain ⟨⟨⟨probe, o⟩, before⟩, hzip, hrecord⟩ := getElem?_forall₂ hforall hintent
      obtain ⟨hzip, -⟩ := getElem?_zip_eq_some.mp hzip
      obtain ⟨-, ho⟩ := getElem?_zip_eq_some.mp hzip
      rw [hobservation, Option.some.injEq] at ho
      subst ho
      simp only [recordSupport, bind_unit_ok_iff, Except.ok.injEq] at hrecord
      exact ⟨before, hrecord.2.2.symm⟩
    · next hge =>
      -- past the observed terms there are none to be observed
      rw [getElem?_drop] at hintent
      have hin := (List.getElem?_eq_some_iff.mp hintent).1
      omega

lemma concludeEvidence_termIntents (observations : List QueryTermSupportObservation) :
    (concludeEvidence plan observations).termIntents = plan.termIntents := by
  unfold concludeEvidence
  simp only
  split_ifs <;> rfl

section

variable {report : QueryEvidenceReport} {final : LexicalQueryPlan}
  (h : finalizeEvidence T plan report = .ok final)

include h

/-- What an accepted report leads to, for a plan that takes evidence. -/
theorem finalizeEvidence_concluded (hassisted : plan.assistance ≠ .explicitSyntaxBypass) :
    ∃ resolved, final = concludeEvidence resolved report.termSupport ∧
      validatePlan T final = .ok () ∧
      report.termSupport.length = plan.supportProbes.length ∧
      resolved.termIntents.length = plan.termIntents.length ∧
      ∀ entry ∈ resolved.termIntents.zip report.termSupport,
        ∃ before, entry.1 = withSupport before entry.2 := by
  simp only [finalizeEvidence, bind_unit_ok_iff, if_neg hassisted] at h
  obtain ⟨-, -, h⟩ := h
  obtain ⟨observed, hobserve, h⟩ := bind_ok_iff.mp h
  obtain ⟨resolved, hrecord, h⟩ := bind_ok_iff.mp h
  obtain ⟨⟨⟩, hvalid, h⟩ := bind_ok_iff.mp h
  obtain rfl := Except.ok.inj h
  obtain ⟨hcount, hlength, hsupport⟩ := recordSupports_observed hrecord
  -- the metadata probe changes roles, not what is asked
  have hobserved : observed.supportProbes = plan.supportProbes ∧
      observed.termIntents.length = plan.termIntents.length := by
    unfold observeIdentifier at hobserve
    split at hobserve <;> cases hobserve <;>
      simp [promoteIdentifierCandidate]
  exact ⟨resolved, rfl, hvalid, hobserved.1 ▸ hcount, hlength.trans hobserved.2, hsupport⟩

lemma finalizeEvidence_ready (hready : final.execution = .ready) : ReadyShape final report := by
  have hassisted : plan.assistance ≠ .explicitSyntaxBypass := by
    intro hbypass
    simp only [finalizeEvidence, bind_unit_ok_iff, if_pos hbypass, Except.ok.injEq] at h
    obtain ⟨hvalid, -, -, rfl⟩ := h
    have hkind := (validatePlan_ready hvalid hready).assisted
    rw [validatePlan, bind_unit_ok_iff, if_neg hkind] at hvalid
    simp [validateAssisted, bind_unit_ok_iff, hbypass] at hvalid
  obtain ⟨resolved, hfinal, hvalid, -, -, hsupport⟩ := finalizeEvidence_concluded h hassisted
  have hplan := validatePlan_ready hvalid hready
  have hintents : final.termIntents = resolved.termIntents := by
    rw [hfinal, concludeEvidence_termIntents]
  refine ⟨?_, hplan.stages.ordinals_eq hplan.bounds, fun stage hstage hkind => ?_,
    fun stage hstage intent hintent hanchor => (hplan.stages.stages stage hstage).anchors hintent hanchor,
    fun stage hstage => (hplan.stages.stages stage hstage).disjoint,
    fun stage hstage hexpands entry hentry hfrequency => ?_⟩
  · have hkinds := expectedKinds_pairwise final
    rwa [← hplan.stages.kinds, map_map] at hkinds
  · have hdraft := (hplan.stages.stages stage hstage).draft_eq
    rw [hkind] at hdraft
    exact congrArg StageDraft.requiredTermIndexes hdraft
  · have hdraft := (hplan.stages.stages stage hstage).draft_eq
    rw [hintents] at hentry
    obtain ⟨before, hbefore⟩ := hsupport entry hentry
    have huseful : entry.1.isUseful = true := by
      rw [hbefore]
      simp [QueryTermIntent.isUseful, withSupport, hfrequency]
    have hmem : entry.1 ∈ final.termIntents := hintents ▸ (of_mem_zip hentry).1
    have hrelaxed : entry.1.index ∈ relaxedIndexes final.termIntents final.bounds := by
      rw [hplan.bounds, relaxedIndexes_eq hplan.indexed]
      exact mem_map_of_mem (mem_filter.mpr ⟨hmem, by simp [huseful]⟩)
    have hrequired : stage.requiredTermIndexes = prefixStageRequiredIndexes
        (relaxedIndexes final.termIntents final.bounds) stage.prefixTermIndexes := by
      have hreq := congrArg StageDraft.requiredTermIndexes hdraft
      have hpre := congrArg StageDraft.prefixTermIndexes hdraft
      change stage.requiredTermIndexes = _ at hreq
      change stage.prefixTermIndexes = _ at hpre
      cases hkind : stage.kind <;> simp_all [draftOf, QueryEvidenceStageKind.expands]
    by_cases hleading : entry.1.index ∈ stage.prefixTermIndexes
    · exact .inr hleading
    · rw [hrequired]
      exact .inl (mem_filter.mpr ⟨hrelaxed, by simpa using hleading⟩)

end

/-- Nothing can be found: an anchor has no document, or no term has one and none expands. -/
def EvidenceMissing (plan : LexicalQueryPlan) (report : QueryEvidenceReport) : Prop :=
  (∃ entry ∈ plan.termIntents.zip report.termSupport,
    entry.1.isAnchor = true ∧ entry.2.documentFrequency = 0) ∨
  (∀ entry ∈ plan.termIntents.zip report.termSupport, entry.2.documentFrequency = 0) ∧
    ∀ entry ∈ plan.termIntents.zip report.termSupport, entry.1.isOptional = true →
      plan.bounds.minPrefixChars ≤ entry.1.text.length → entry.2.prefixExpansions = 0

lemma concludeEvidence_empty_iff (hbounds : plan.bounds = .lexicalV1)
    {report : QueryEvidenceReport} (hcount : report.termSupport.length = plan.termIntents.length)
    (hsupport : ∀ entry ∈ plan.termIntents.zip report.termSupport,
      ∃ before, entry.1 = withSupport before entry.2) :
    (concludeEvidence plan report.termSupport).execution = .emptyNoEvidence ↔
      EvidenceMissing plan report := by
  have huseful : ∀ entry ∈ plan.termIntents.zip report.termSupport,
      entry.1.isUseful = false ↔ entry.2.documentFrequency = 0 := by
    intro entry hentry
    obtain ⟨before, hbefore⟩ := hsupport entry hentry
    rw [hbefore]
    by_cases hzero : entry.2.documentFrequency = 0 <;>
      simp [QueryTermIntent.isUseful, withSupport, hzero, Nat.pos_iff_ne_zero]
  have hcover : ∀ intent ∈ plan.termIntents,
      ∃ o, (intent, o) ∈ plan.termIntents.zip report.termSupport := by
    intro intent hintent
    obtain ⟨i, hi⟩ := mem_iff_getElem?.mp hintent
    have hlt : i < report.termSupport.length := hcount ▸ (List.getElem?_eq_some_iff.mp hi).1
    exact ⟨_, mem_of_getElem? (getElem?_zip_eq_some.mpr ⟨hi, getElem?_eq_getElem hlt⟩)⟩
  have hanchors : anchorUnsupported plan = true ↔ ∃ entry ∈ plan.termIntents.zip report.termSupport,
        entry.1.isAnchor = true ∧ entry.2.documentFrequency = 0 := by
    simp only [anchorUnsupported, any_eq_true, Bool.and_eq_true, Bool.not_eq_true']
    constructor
    · rintro ⟨intent, hintent, hanchor, hnot⟩
      obtain ⟨o, ho⟩ := hcover intent hintent
      exact ⟨(intent, o), ho, hanchor, (huseful _ ho).mp hnot⟩
    · rintro ⟨entry, hentry, hanchor, hzero⟩
      exact ⟨entry.1, (of_mem_zip hentry).1, hanchor, (huseful _ hentry).mpr hzero⟩
  have hnone : indexesOf (plan.termIntents.filter (·.isUseful)) = [] ↔
      ∀ entry ∈ plan.termIntents.zip report.termSupport, entry.2.documentFrequency = 0 := by
    rw [indexesOf, map_eq_nil_iff, filter_eq_nil_iff]
    constructor
    · intro hnot entry hentry
      exact (huseful _ hentry).mp (by simpa using hnot entry.1 (of_mem_zip hentry).1)
    · intro hzero intent hintent
      obtain ⟨o, ho⟩ := hcover intent hintent
      simpa using (huseful _ ho).mpr (hzero _ ho)
  have hexpanded : prefixIndexes plan report.termSupport = [] ↔
      ∀ entry ∈ plan.termIntents.zip report.termSupport, entry.1.isOptional = true →
        plan.bounds.minPrefixChars ≤ entry.1.text.length → entry.2.prefixExpansions = 0 := by
    have hroom : plan.bounds.maxPrefixTerms ≠ 0 := by
      rw [hbounds]
      decide
    simp only [prefixIndexes, indexesOf, map_eq_nil_iff, take_eq_nil_iff, hroom, false_or,
      filter_eq_nil_iff, Bool.and_eq_true, decide_eq_true_eq, not_and, Nat.not_lt,
      Nat.le_zero]
    exact ⟨fun hall entry hentry hopt hlen => hall entry hentry ⟨hopt, hlen⟩,
      fun hall entry hentry hboth => hall entry hentry hboth.1 hboth.2⟩
  unfold EvidenceMissing
  rw [← hanchors, ← hnone, ← hexpanded]
  unfold concludeEvidence
  by_cases hanchor : anchorUnsupported plan = true
  · simp [hanchor]
  · by_cases hmissing : indexesOf (plan.termIntents.filter (·.isUseful)) = [] ∧
        prefixIndexes plan report.termSupport = []
    · simp [hanchor, hmissing]
    · simp [hanchor, hmissing, withLadder]

lemma validatePlan_bounds (h : validatePlan T plan = .ok ()) : plan.bounds = .lexicalV1 := by
  simp only [validatePlan, bind_unit_ok_iff] at h
  obtain ⟨hheader, -⟩ := h
  simp only [validateHeader, bind_unit_ok_iff, rejectIf_ok, not_not, ne_eq] at hheader
  obtain ⟨-, -, -, -, -, -, -, -, hbounds, -, -⟩ := hheader
  exact hbounds

lemma validatePlan_groups (h : validatePlan T plan = .ok ()) :
    plan.fieldGroups = fieldGroupsOf plan.kind plan.scope := by
  simp only [validatePlan, bind_unit_ok_iff] at h
  obtain ⟨hheader, -⟩ := h
  simp only [validateHeader, bind_unit_ok_iff, rejectIf_ok, not_not, ne_eq] at hheader
  obtain ⟨-, -, -, -, -, -, -, hgroups, -⟩ := hheader
  exact hgroups

/-- A valid plan that waits for evidence asks about each of its terms. -/
theorem validatePlan_awaiting (h : validatePlan T plan = .ok ())
    (hawaiting : plan.execution = .awaitingEvidence) :
    plan.assistance ≠ .explicitSyntaxBypass ∧
      plan.supportProbes.length = plan.termIntents.length := by
  simp only [validatePlan, bind_unit_ok_iff] at h
  obtain ⟨-, hrest⟩ := h
  have hassisted : plan.kind ≠ .explicit := by
    intro hexplicit
    rw [if_pos hexplicit] at hrest
    simp [validateExplicit, hawaiting] at hrest
  rw [if_neg hassisted] at hrest
  simp only [validateAssisted, bind_unit_ok_iff, rejectIf_ok, not_not, ne_eq] at hrest
  obtain ⟨heligible, -, -, -, -, -, hexecution⟩ := hrest
  simp only [validateExecution, hawaiting, bind_unit_ok_iff, rejectIf_ok, not_or, not_not,
    ne_eq] at hexecution
  exact ⟨by simp [heligible], hexecution.1.2.2.1⟩

lemma bounds_concludeEvidence (observations : List QueryTermSupportObservation) :
    (concludeEvidence plan observations).bounds = plan.bounds := by
  unfold concludeEvidence
  simp only
  split_ifs <;> rfl

/-- **What evidence makes of a plan**: a ready plan has the shape of the ladder, and a plan that
waited for evidence comes out empty exactly when the evidence is missing. -/
theorem finalizeEvidence_shape {report : QueryEvidenceReport} {final : LexicalQueryPlan}
    (h : finalizeEvidence T plan report = .ok final) :
    (final.execution = .ready → ReadyShape final report) ∧
      (plan.execution = .awaitingEvidence →
        (final.execution = .emptyNoEvidence ↔ EvidenceMissing final report)) := by
  refine ⟨finalizeEvidence_ready h, fun hawaiting => ?_⟩
  have hplan : validatePlan T plan = .ok () := by
    simp only [finalizeEvidence, bind_unit_ok_iff] at h
    exact h.1
  obtain ⟨hassisted, hprobes⟩ := validatePlan_awaiting hplan hawaiting
  obtain ⟨resolved, rfl, hvalid, hcount, hlength, hsupport⟩ := finalizeEvidence_concluded h hassisted
  have hbounds := validatePlan_bounds hvalid
  rw [bounds_concludeEvidence] at hbounds
  have hcovers : report.termSupport.length = resolved.termIntents.length := by
    rw [hcount, hprobes, hlength]
  unfold EvidenceMissing
  rw [concludeEvidence_termIntents, bounds_concludeEvidence]
  exact concludeEvidence_empty_iff hbounds hcovers hsupport

theorem finalizeEvidence_shape_expanded :
    (expandedReady.execution = .ready → ReadyShape expandedReady expandedReport) ∧
      (expandedPlan.execution = .awaitingEvidence →
        (expandedReady.execution = .emptyNoEvidence ↔
          EvidenceMissing expandedReady expandedReport)) :=
  finalizeEvidence_shape
    (show finalizeEvidence .latin expandedPlan expandedReport = .ok expandedReady by decide +kernel)

def emptyReport : QueryEvidenceReport := ⟨lexicalQueryPlanSchemaVersion, none, []⟩

/-- The plan of a quoted word. -/
def quotedPlan : LexicalQueryPlan :=
  draftPlan .latin "\"alpha\"".toList ⟨"\"alpha\"".toList, none, none⟩

/-- A plan that took no evidence has no term with a document, and does not come out empty: one with
explicit syntax bypasses the evidence, and one that is ready already stays so. -/
theorem finalizeEvidence_without_evidence :
    ¬ (∀ plan report final, FaithfulReport plan report →
        finalizeEvidence .latin plan report = .ok final → plan.kind = .explicit →
        (final.execution = .emptyNoEvidence ↔ EvidenceMissing final report)) ∧
      ¬ (∀ plan report final, FaithfulReport plan report →
        finalizeEvidence .latin plan report = .ok final → plan.execution = .ready →
        (final.execution = .emptyNoEvidence ↔ EvidenceMissing final report)) := by
  have hmissing : ∀ plan, EvidenceMissing plan emptyReport := by
    intro plan
    simp [EvidenceMissing, emptyReport]
  refine ⟨fun h => ?_, fun h => ?_⟩
  · have hempty := (h quotedPlan emptyReport quotedPlan
      ⟨by decide +kernel, by decide +kernel, by decide +kernel, by decide +kernel⟩
      (by decide +kernel) (by decide +kernel)).mpr (hmissing quotedPlan)
    have hbypass : quotedPlan.execution = .explicitBypass := by decide +kernel
    rw [hbypass] at hempty
    cases hempty
  · have hempty := (h expandedReady emptyReport (withLadder expandedReady [])
      ⟨by decide +kernel, by decide +kernel, by decide +kernel, by decide +kernel⟩
      (by decide +kernel) rfl).mpr (hmissing _)
    cases hempty

end Kwiry
