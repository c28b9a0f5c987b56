import Kwiry.Query.Plan

/-!
# Plan Validation

`validate_plan` and `validate_stages` of `query.rs`, with the stage builders that planning and
validation share.
-/

namespace Kwiry

open Foundations

/-! ## §1 Stage builders -/

structure PartialCoverageStage where
  condition : QueryEvidenceStageCondition
  (requiredTermIndexes prefixTermIndexes : List ℕ)
  minimumOptionalMatches : ℕ

namespace QueryTermIntent

def isAnchor (intent : QueryTermIntent) : Bool :=
  intent.role = .requiredIdentifierAnchor

def isUseful (intent : QueryTermIntent) : Bool :=
  intent.support = .useful

def isOptional (intent : QueryTermIntent) : Bool :=
  intent.role = .optionalContext

end QueryTermIntent

def indexesOf (intents : List QueryTermIntent) : List ℕ :=
  intents.map (·.index)

def anchorIndexes (intents : List QueryTermIntent) : List ℕ :=
  indexesOf (intents.filter (·.isAnchor))

/-- Anchors and useful terms. -/
def relaxedIndexes (intents : List QueryTermIntent) (bounds : QueryBounds) : List ℕ :=
  indexesOf ((intents.filter fun intent => intent.isAnchor || intent.isUseful).take
    bounds.maxPartialCoverageTerms)

/-- The members of a list as an ordered set lists them. -/
def orderedSet (indexes : List ℕ) : List ℕ :=
  indexes.dedup.insertionSort (· ≤ ·)

/-- Unsupported context is dropped and the rest required; a query without any gets one exploratory
pass over at least two useful terms. -/
def partialCoverageStage (intents : List QueryTermIntent) (bounds : QueryBounds)
    (prefixIndexes : List ℕ) : Option PartialCoverageStage :=
  let allIndexes := indexesOf intents
  let relaxed := relaxedIndexes intents bounds
  if intents.any fun intent => intent.isOptional && intent.support = .unsupported then
    if relaxed ≠ [] ∧ relaxed ≠ allIndexes then some ⟨.always, relaxed, [], 0⟩ else none
  else
    let anchors := anchorIndexes intents
    let optional := indexesOf (intents.filter fun intent => intent.isOptional && intent.isUseful)
    if optional.length < minFallbackOptionalTerms ∨
        bounds.maxPartialCoverageTerms ≤ anchors.length then none
    else
      let includedOptional := optional.take (bounds.maxPartialCoverageTerms - anchors.length)
      if includedOptional = [] then none
      else
        let includedPrefix := orderedSet (prefixIndexes.filter (· ∈ includedOptional))
        let required := indexesOf (intents.filter fun intent => intent.isAnchor ||
          (intent.index ∈ includedOptional && intent.index ∉ includedPrefix))
        if required = [] ∧ includedPrefix = [] then none
        else some ⟨.ifFewerThanMinimumStandardSources, required, includedPrefix, 1⟩

/-- What a prefix stage requires exactly: the relaxed terms it does not expand. -/
def prefixStageRequiredIndexes (relaxed prefixes : List ℕ) : List ℕ :=
  relaxed.filter (· ∉ prefixes)

/-! ## §2 Stages -/

namespace QueryEvidenceStageKind

def rank (kind : QueryEvidenceStageKind) : ℕ := kind.ctorIdx

end QueryEvidenceStageKind

/-- The prefix terms of the searchable-text prefix stage. -/
def canonicalPrefixIndexes (plan : LexicalQueryPlan) : List ℕ :=
  match plan.evidenceStages.find? (·.kind = .prefixes) with
  | some stage => stage.prefixTermIndexes
  | none => []

def hasPrefixMetadata (plan : LexicalQueryPlan) : Bool :=
  plan.evidenceStages.any (·.kind = .prefixMetadata)

def expectedKinds (plan : LexicalQueryPlan) : List QueryEvidenceStageKind :=
  let prefixes := canonicalPrefixIndexes plan
  (if plan.exactIntent.isSome then [.exactMetadata] else []) ++
    (if plan.phraseIntent.isSome then [.exactPhrase] else []) ++
    (if hasPrefixMetadata plan then [.prefixMetadata] else []) ++ [.allTerms] ++
    (if prefixes ≠ [] then [.prefixes] else []) ++
    (if (partialCoverageStage plan.termIntents plan.bounds prefixes).isSome then
      [.partialCoverage] else [])

def expectedCondition (plan : LexicalQueryPlan) (kind : QueryEvidenceStageKind) :
    QueryEvidenceStageCondition :=
  if kind = .partialCoverage then
    match partialCoverageStage plan.termIntents plan.bounds (canonicalPrefixIndexes plan) with
    | none => .always
    | some coverage => coverage.condition
  else .always

def strictlyIncreasing (indexes : List ℕ) : Bool :=
  (indexes.zip indexes.tail).all fun pair => pair.1 < pair.2

/-- Whether every identifier anchor is required. -/
def anchorsKept (plan : LexicalQueryPlan) (stage : QueryEvidenceStage) : Bool :=
  (anchorIndexes plan.termIntents).all (· ∈ stage.requiredTermIndexes)

/-- Whether an index names no optional context. -/
def isNotExpandable (intents : List QueryTermIntent) (index : ℕ) : Bool :=
  match intents[index]? with
  | none => true
  | some intent => intent.role ≠ .optionalContext

def differsFromCoverage (stage : QueryEvidenceStage) : Option PartialCoverageStage → Bool
  | none => true
  | some coverage =>
    stage.requiredTermIndexes ≠ coverage.requiredTermIndexes ||
      stage.prefixTermIndexes ≠ coverage.prefixTermIndexes ||
      stage.minimumOptionalMatches ≠ coverage.minimumOptionalMatches

/-- The check of a stage's own kind. -/
def stageInconsistent (plan : LexicalQueryPlan) (stage : QueryEvidenceStage) : Bool :=
  let allIndexes := indexesOf plan.termIntents
  let prefixes := canonicalPrefixIndexes plan
  match stage.kind with
  | .exactMetadata =>
    plan.exactIntent.isNone || stage.fieldGroup ≠ .exact || stage.requiredTermIndexes ≠ [] ||
      stage.prefixTermIndexes ≠ []
  | .exactPhrase =>
    plan.phraseIntent.isNone || stage.fieldGroup ≠ .phrase || stage.requiredTermIndexes ≠ [] ||
      stage.prefixTermIndexes ≠ []
  | .allTerms =>
    stage.fieldGroup ≠ .searchableText || stage.requiredTermIndexes ≠ allIndexes ||
      stage.prefixTermIndexes ≠ []
  | .partialCoverage =>
    stage.fieldGroup ≠ .searchableText ||
      differsFromCoverage stage (partialCoverageStage plan.termIntents plan.bounds prefixes) ||
      (stage.requiredTermIndexes = [] && stage.prefixTermIndexes = []) ||
      (stage.minimumOptionalMatches = 0 && stage.requiredTermIndexes = allIndexes) ||
      plan.bounds.maxPartialCoverageTerms <
        stage.requiredTermIndexes.length + stage.prefixTermIndexes.length ||
      !anchorsKept plan stage
  | .prefixMetadata | .prefixes =>
    stage.fieldGroup ≠ (if stage.kind = .prefixMetadata then .prefixMetadata else .prefixes) ||
      stage.requiredTermIndexes ≠ prefixStageRequiredIndexes
        (relaxedIndexes plan.termIntents plan.bounds) stage.prefixTermIndexes ||
      stage.prefixTermIndexes ≠ prefixes ||
      stage.prefixTermIndexes = [] ||
      plan.bounds.maxPrefixTerms < stage.prefixTermIndexes.length ||
      !anchorsKept plan stage ||
      stage.prefixTermIndexes.any (isNotExpandable plan.termIntents)

def stageInconsistency : QueryEvidenceStageKind → String
  | .exactMetadata => "exact metadata stage is inconsistent"
  | .exactPhrase => "exact phrase stage is inconsistent"
  | .allTerms => "all-terms stage is inconsistent"
  | .partialCoverage => "partial-coverage stage is inconsistent"
  | .prefixMetadata | .prefixes => "prefix stage is inconsistent"

/-- One round of the loop over the stages; the state is the kind of the stage before. -/
def validateStage (plan : LexicalQueryPlan) (previous : Option QueryEvidenceStageKind)
    (entry : QueryEvidenceStage × ℕ) : Except QueryPlanError (Option QueryEvidenceStageKind) := do
  let (stage, ordinal) := entry
  let allIndexes := indexesOf plan.termIntents
  rejectIf (stage.ordinal ≠ ordinal % 2 ^ 8 ∨ stage.maxCandidates = 0 ∨
      plan.bounds.maxCandidatesPerStage < stage.maxCandidates ∨
      previous.any (fun kind => stage.kind.rank ≤ kind.rank))
    (invalidPlan "query evidence stage order or bound is invalid")
  rejectIf (stage.condition ≠ expectedCondition plan stage.kind)
    (invalidPlan "query evidence stage execution condition is not canonical")
  rejectIf (stage.kind ≠ .partialCoverage ∧ stage.minimumOptionalMatches ≠ 0)
    (invalidPlan "query evidence stage optional-match threshold is not canonical")
  rejectIf ((stage.requiredTermIndexes ++ stage.prefixTermIndexes).any (· ∉ allIndexes))
    (invalidPlan "query evidence stage references an unknown term")
  rejectIf (!strictlyIncreasing stage.requiredTermIndexes ||
      !strictlyIncreasing stage.prefixTermIndexes ||
      stage.prefixTermIndexes.any (· ∈ stage.requiredTermIndexes))
    (invalidPlan "query evidence stage term indexes are not canonical")
  rejectIf (stageInconsistent plan stage) (invalidPlan (stageInconsistency stage.kind))
  .ok (some stage.kind)

def validateStages (plan : LexicalQueryPlan) : Except QueryPlanError Unit := do
  rejectIf (plan.bounds.maxEvidenceStages < plan.evidenceStages.length)
    (invalidPlan "query plan has too many evidence stages")
  rejectIf (hasPrefixMetadata plan ≠
      (canonicalPrefixIndexes plan ≠ [] && plan.fieldGroups.prefixMetadata ≠ []))
    (invalidPlan "prefix metadata stage is not canonical for the selected scope")
  rejectIf (plan.evidenceStages.map (·.kind) ≠ expectedKinds plan)
    (invalidPlan "query evidence stages do not preserve the required evidence ladder")
  let _ ← plan.evidenceStages.zipIdx.foldlM (validateStage plan) none
  .ok ()

/-! ## §3 Plans -/

variable (T : CharTables)

def profileOf (kind : QueryPlanKind) : Text :=
  if kind = .explicit then lexicalV1ProfileId else lexicalV2ProfileId

def matchOperatorOf : QueryPlanKind → QueryMatchOperator
  | .explicit => .explicit
  | .ordinary => .any
  | .identifier => .all

def fieldGroupsOf (kind : QueryPlanKind) (scope : Option QueryPublicField) : QueryFieldGroups :=
  if kind = .explicit then .lexicalV1 else .lexicalV2 scope

/-- Texts and lengths a plan may not have. -/
def hasInvalidQuery (plan : LexicalQueryPlan) : Bool :=
  isBlank plan.query || maxQueryBytes < utf8Len plan.query || isBlank plan.queryText ||
    maxQueryBytes < utf8Len plan.queryText || maxQueryTerms < (splitWhitespace plan.query).length

/-- The controls of the query are read again. -/
def validateControls (plan : LexicalQueryPlan) : Except QueryPlanError Unit :=
  match parseFieldControls plan.query with
  | .error _ => .error (invalidPlan "query plan field controls are not canonical")
  | .ok controls =>
    rejectIf (controls.queryText ≠ plan.queryText ∨ controls.scope ≠ plan.scope ∨
        controls.emphasis ≠ plan.emphasis)
      (invalidPlan "query plan field controls are not canonical")

/-- The checks before the branch for explicit plans. -/
def validateHeader (plan : LexicalQueryPlan) : Except QueryPlanError Unit := do
  rejectIf (plan.schemaVersion ≠ lexicalQueryPlanSchemaVersion)
    (invalidPlan "query plan schema version is unsupported")
  rejectIf (plan.fieldControlsSchemaVersion ≠ fieldControlsSchemaVersion)
    (invalidPlan "field control schema version is unsupported")
  rejectIf (hasInvalidQuery plan) (invalidPlan "query plan contains an invalid query")
  rejectIf (plan.profileId ≠ profileOf plan.kind)
    (invalidPlan "query plan relevance profile is unsupported")
  rejectIf (plan.kind = .explicit ∧ (plan.scope.isSome ∨ plan.emphasis.isSome))
    (invalidPlan "explicit query plan cannot carry field controls")
  rejectIf (controlsContradict plan.scope plan.emphasis)
    (invalidPlan "query plan field controls are contradictory")
  validateControls plan
  rejectIf (plan.fieldGroups ≠ fieldGroupsOf plan.kind plan.scope)
    (invalidPlan "query plan field groups are not recognized")
  rejectIf (plan.bounds ≠ .lexicalV1) (invalidPlan "query plan bounds are not recognized")
  rejectIf (plan.typoStage ≠ .disabled) (invalidPlan "query plan typo stage must remain disabled")
  rejectIf (plan.matchOperator ≠ matchOperatorOf plan.kind)
    (invalidPlan "query plan kind and match operator do not agree")

def validateExplicit (plan : LexicalQueryPlan) : Except QueryPlanError Unit :=
  rejectIf (plan.assistance ≠ .explicitSyntaxBypass ∨ plan.execution ≠ .explicitBypass ∨
      plan.terms ≠ [] ∨ plan.termIntents ≠ [] ∨ plan.normalizedExact.isSome ∨
      plan.exactIntent.isSome ∨ plan.phraseBoost ∨ plan.phraseIntent.isSome ∨
      plan.supportProbes ≠ [] ∨ plan.evidenceStages ≠ [] ∨ plan.metadataProbe.isSome)
    (invalidPlan "explicit query plan must bypass every assistance stage")

def validateTermIntent (entry : (Text × QueryTermIntent) × ℕ) : Except QueryPlanError Unit := do
  let ((term, intent), index) := entry
  rejectIf (intent.index ≠ index % 2 ^ 16 ∨ intent.text ≠ term)
    (invalidPlan "query term intent is not canonical")
  rejectIf (intent.projection = .exactIdentifier ∧ (intent.role ≠ .requiredIdentifierAnchor ∨
      intent.text ∉ technicalIdentifiers T intent.text))
    (invalidPlan "exact identifier term intent is not a complete recognized identity")

def exactIntentInconsistent (plan : LexicalQueryPlan) : Bool :=
  plan.normalizedExact ≠ plan.exactIntent.map (·.normalized) ||
    plan.exactIntent.any fun intent => intent.fieldGroup ≠ .exact

def phraseIntentInconsistent (plan : LexicalQueryPlan) : Bool :=
  plan.phraseBoost ≠ plan.phraseIntent.isSome ||
    plan.phraseIntent.any fun intent =>
      intent.terms ≠ plan.terms || intent.terms.length < 2 || intent.fieldGroup ≠ .phrase

def isUnknown (intent : QueryTermIntent) : Bool :=
  intent.support = .unknown

def validateProbe (plan : LexicalQueryPlan) (entry : QueryTermSupportProbe × ℕ) :
    Except QueryPlanError Unit :=
  let (probe, index) := entry
  rejectIf (probe.probeId ≠ index % 2 ^ 16 ∨ probe.termIndex ≠ index % 2 ^ 16 ∨
      some probe.term ≠ plan.terms[index]? ∨ probe.fieldGroup ≠ .searchableText)
    (invalidPlan "term support probe is not canonical")

def validateExecution (plan : LexicalQueryPlan) : Except QueryPlanError Unit :=
  match plan.execution with
  | .explicitBypass =>
    .error (invalidPlan "assisted query cannot use explicit execution disposition")
  | .awaitingEvidence => do
    rejectIf (plan.terms = [] ∨ plan.evidenceStages ≠ [] ∨
        plan.supportProbes.length ≠ plan.termIntents.length ∨
        plan.termIntents.any (!isUnknown ·))
      (invalidPlan "awaiting-evidence query plan is inconsistent")
    plan.supportProbes.zipIdx.forM (validateProbe plan)
  | .ready => do
    rejectIf (plan.evidenceStages = [] ∨ plan.supportProbes ≠ [] ∨
        plan.termIntents.any isUnknown)
      (invalidPlan "ready query plan is inconsistent")
    validateStages plan
  | .emptyNoEvidence => do
    rejectIf (plan.evidenceStages ≠ [] ∨ plan.supportProbes ≠ [])
      (invalidPlan "empty query plan must not be executable")
    rejectIf (plan.terms ≠ [] ∧ plan.termIntents.any isUnknown)
      (invalidPlan "empty query plan has unresolved evidence")

def validateAssisted (plan : LexicalQueryPlan) : Except QueryPlanError Unit := do
  rejectIf (plan.assistance ≠ .eligible) (invalidPlan "assisted query is not marked eligible")
  rejectIf (plan.terms.length ≠ plan.termIntents.length ∨
      plan.bounds.maxTermSupportProbes < plan.termIntents.length)
    (invalidPlan "query terms and term intents do not agree")
  (plan.terms.zip plan.termIntents).zipIdx.forM (validateTermIntent T)
  rejectIf (plan.kind = .identifier ∧ !plan.termIntents.any (·.isAnchor))
    (invalidPlan "identifier query must declare at least one required anchor")
  rejectIf (exactIntentInconsistent plan) (invalidPlan "exact query intent is inconsistent")
  rejectIf (phraseIntentInconsistent plan) (invalidPlan "phrase query intent is inconsistent")
  validateExecution plan

def validatePlan (plan : LexicalQueryPlan) : Except QueryPlanError Unit := do
  validateHeader plan
  if plan.kind = .explicit then validateExplicit plan else validateAssisted T plan

end Kwiry
