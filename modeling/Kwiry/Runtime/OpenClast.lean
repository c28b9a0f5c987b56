import Kwiry.Runtime.Desktop

/-!
# The OpenClast Index Manager

`OpenClastIndexManager`: one partition per resource, where the resource of a vault is its
tenant, its id and its room. A registration change moves a vault between partitions, and
what cannot be read again under the new registration is withheld.

A partition directory is named by the digest of its resource. Digests of distinct resources
are distinct (`partitionId_inj`), so partitions are kept under their resources here.
-/

namespace Kwiry

open Foundations

/-! ## §1 Layouts -/

def generationLayoutVersion : ℕ := 2

inductive HostProfile where
  | desktop | openClast
  deriving DecidableEq

structure PartitionLayout where
  partitionId : Digest
  resource : ResourceKey
  deriving DecidableEq

structure GenerationLayout where
  layoutVersion : ℕ
  profile : HostProfile
  partitions : List PartitionLayout
  deriving DecidableEq

def validateResource (resource : ResourceKey) : Except Error Unit :=
  [("tenant_id", resource.tenantId), ("vault_id", resource.vaultId),
    ("room_id", resource.roomId)].forM fun entry =>
      if isBlank entry.2.chars then
        .error (.state ("resource " ++ entry.1 ++ " must not be empty"))
      else
        .ok ()

variable (B : Build)

namespace GenerationLayout

def resources (layout : GenerationLayout) : List ResourceKey :=
  layout.partitions.map PartitionLayout.resource

/-- One partition of `validate`: its resource, its id, and that neither was seen before. -/
def validatePartition
    (seen : Std.ExtTreeSet Digest × Std.ExtTreeSet ResourceKey) (partition : PartitionLayout) :
    Except Error (Std.ExtTreeSet Digest × Std.ExtTreeSet ResourceKey) := do
  validateResource partition.resource
  if partition.partitionId ≠ Kwiry.partitionId B.hash partition.resource then
    throw (.state ("partition ID does not match its resource: " ++
      hexDigest partition.partitionId))
  if seen.1.contains partition.partitionId then
    throw (.state ("duplicate partition ID: " ++ hexDigest partition.partitionId))
  if seen.2.contains partition.resource then
    throw (.state ("duplicate resource partition: " ++ partition.resource.tenantId.toString ++
      "/" ++ partition.resource.vaultId.toString ++ "/" ++ partition.resource.roomId.toString))
  return (seen.1.insert partition.partitionId, seen.2.insert partition.resource)

def validate (layout : GenerationLayout) : Except Error Unit := do
  if layout.layoutVersion ≠ generationLayoutVersion then
    throw (.state ("unsupported generation layout version " ++ toString layout.layoutVersion ++
      "; expected " ++ toString generationLayoutVersion))
  if layout.profile ≠ .openClast then
    throw (.state "partition layout must use the openclast profile")
  let _ ← layout.partitions.foldlM (validatePartition B) (∅, ∅)
  return ()

/-- The layout of a set of resources, in their order. -/
def openclast (resources : Std.ExtTreeSet ResourceKey) : Except Error GenerationLayout := do
  let layout : GenerationLayout :=
    { layoutVersion := generationLayoutVersion
      profile := .openClast
      partitions := resources.toList.map fun resource =>
        ⟨Kwiry.partitionId B.hash resource, resource⟩ }
  layout.validate B
  return layout

end GenerationLayout

/-! ## §2 Generations and the manager -/

structure OpenClastGeneration where
  id : Text
  layout : GenerationLayout
  partitions : Std.ExtTreeMap ResourceKey (List Document)
  manifest : Manifest

/-- An opened generation: the partitions of its layout. -/
structure PartitionedSearchIndex where
  generation : Text
  partition : ResourceKey → Option (List Document)

def OpenClastGeneration.search (generation : OpenClastGeneration) : PartitionedSearchIndex where
  generation := generation.id
  partition resource :=
    if resource ∈ generation.layout.resources then generation.partitions[resource]? else none

structure OpenClastIndexManager where
  /-- The generation the store's pointer names. -/
  (current active : OpenClastGeneration)
  layout : GenerationLayout
  runtime : SearchRuntime PartitionedSearchIndex
  manifest : Manifest
  config : Config
  auditCursor : ℕ

/-! ## §3 Building and opening -/

def missingResourceError (vault : VaultRegistration) : Error :=
  .state ("openclast vault " ++ vault.id.toString ++ " is missing an exact resource classification")

/-- The resource a vault must have in this profile. -/
def requireResource (config : Config) (vault : VaultRegistration) : Except Error ResourceKey :=
  match config.resourceKey vault with
  | some resource => .ok resource
  | none => .error (missingResourceError vault)

structure OpenClastBuild where
  state : BuildState
  partitions : Std.ExtTreeMap ResourceKey (List Document)

/-- One vault of `build_openclast_candidate`, in a partition of its own. -/
def buildPartition (config : Config) (world : PassWorld) (build : OpenClastBuild)
    (vault : VaultRegistration) : Except Error OpenClastBuild := do
  let resource ← requireResource config vault
  if vault.id ≠ resource.vaultId ∨ vault.room ≠ some resource.roomId then
    throw (.state ("vault " ++ vault.id.toString ++ " does not match its resource partition"))
  let built ← buildVault B (some resource) vault (world.vault vault)
    { build.state with documents := [] }
  return ⟨built, build.partitions.insert resource built.documents⟩

def buildPartitions (config : Config) (world : PassWorld) : Except Error OpenClastBuild :=
  config.vaults.foldlM (buildPartition B config world) ⟨BuildState.initial, ∅⟩

def buildOpenClastCandidate (config : Config) (env : PassEnv) :
    Except Error OpenClastGeneration := do
  let resources ← config.vaults.mapM (requireResource config)
  let layout ← GenerationLayout.openclast B (Std.ExtTreeSet.ofList resources)
  let build ← buildPartitions B config env.world
  env.faults.attempt .markSynced
  let manifest := build.state.manifest.markSynced env.syncTime
  manifest.validate B
  env.faults.attempt .saveManifest
  layout.validate B
  env.faults.attempt .saveLayout
  verifyCandidate "partitions" { build.state with manifest := manifest }
    (layout.resources.map fun resource => (build.partitions.getD resource []).length).sum
  return ⟨env.candidateId, layout, build.partitions, manifest⟩

def buildOpenClastIndex (config : Config) (env : PassEnv) : Except Error OpenClastGeneration := do
  if config.vaults.isEmpty then
    throw .noVaults
  env.faults.attempt .createCandidate
  let candidate ← buildOpenClastCandidate B config env
  env.faults.attempt .publish
  env.faults.attempt .pointerWritten
  return candidate

/-- Deletes an evicted source in the partition its row names, if there is one. -/
def evictPartition (manifest : Manifest)
    (partitions : Std.ExtTreeMap ResourceKey (List Document)) (key : SourceKey) :
    Except Error (Std.ExtTreeMap ResourceKey (List Document)) :=
  match manifest.files[key]?.bind ManifestFile.resource with
  | none => .ok partitions
  | some resource =>
    match partitions[resource]? with
    -- an absent partition is withheld state: nothing to delete
    | none => .ok partitions
    | some documents => do
      let documents ← applyIndexUpdates B documents (Std.ExtTreeSet.ofList [key]) []
        (some resource)
      return partitions.insert resource documents

/-- The generation an open serves: the active one, or a published repair of it. -/
def repairedPartitions (active : OpenClastGeneration) (residentDeletions : Bool)
    (env : PassEnv) : Except Error OpenClastGeneration := do
  let manifest := active.manifest.adopt B
  let evicted := active.manifest.evictedKeys B
  match evicted.findSome? fun key => active.manifest.files[key]?.filter fun row =>
      row.resource.isNone with
  | some row =>
    throw (.state ("OpenClast manifest entry " ++ row.path.toString ++
      " is missing its resource; run `kwiry index` to rebuild the disposable index"))
  | none =>
    if evicted.isEmpty && !residentDeletions then
      return { active with manifest := manifest }
    env.faults.attempt .markSynced
    let manifest := manifest.markSynced env.syncTime
    env.faults.attempt .createCandidate
    let partitions ← evicted.foldlM (evictPartition B active.manifest) active.partitions
    env.faults.attempt (.updateIndex .whole)
    manifest.validate B
    env.faults.attempt .saveManifest
    env.faults.attempt .publish
    env.faults.attempt .pointerWritten
    return { active with id := env.candidateId, partitions := partitions, manifest := manifest }

/-- `OpenClastIndexManager::open`. -/
def OpenClastIndexManager.openManager (config : Config) (generation : OpenClastGeneration)
    (residentDeletions : Bool) (env : PassEnv) : Except Error OpenClastIndexManager := do
  generation.manifest.validateReadable
  let active ← repairedPartitions B generation residentDeletions env
  active.layout.validate B
  env.faults.attempt .reopen
  return {
    current := active
    active := active
    layout := active.layout
    runtime := ⟨config.basis, some active.search⟩
    manifest := active.manifest
    config := config
    auditCursor := active.manifest.stateRevision }

/-! ## §4 Planning the vaults -/

/-- The published resource of each vault id. -/
def resourcesByVault (layout : GenerationLayout) : Except Error (Str → Option ResourceKey) :=
  layout.resources.foldlM
    (fun resources resource =>
      if (resources resource.vaultId).isSome then
        .error (.state ("generation layout contains multiple resources for vault " ++
          resource.vaultId.toString))
      else
        .ok (Function.update resources resource.vaultId (some resource)))
    fun _ => none

/-- The state of the loop over vaults: the pass, and the resources to publish. -/
structure VaultLoop where
  pass : PassState
  nextResources : Std.ExtTreeSet ResourceKey

def openClastContext (config : Config) (scope : ReconcileScope) (world : PassWorld)
    (previousResources : Str → Option ResourceKey) (vault : VaultRegistration)
    (resource : ResourceKey) : VaultContext where
  fingerprint := registrationFingerprint B.hash vault
  resource := some resource
  previousResource := previousResources vault.id
  policy := observationPolicy config world
  semanticHash := none
  readScope := vaultReadScope scope vault.id

/-- Some row of the vault was recorded under another registration or resource. -/
def Manifest.registrationReclassified (manifest : Manifest) (vault : VaultRegistration)
    (resource : ResourceKey) : Bool :=
  manifest.rows.any fun row => row.vaultId = vault.id &&
    (row.registrationFingerprint ≠ registrationFingerprint B.hash vault ||
      row.resource ≠ some resource)

/-- The vault's content is published under another resource, or recorded under another
    registration. -/
def vaultReclassified (manifest : Manifest) (previousResources : Str → Option ResourceKey)
    (vault : VaultRegistration) (resource : ResourceKey) : Bool :=
  (previousResources vault.id).any (· ≠ resource) ||
    manifest.registrationReclassified B vault resource

/-- The resources to publish, without the one a reclassified vault was published under. -/
def withdrawReclassified (resources : Std.ExtTreeSet ResourceKey) (previous : Option ResourceKey)
    (reclassified : Bool) : Std.ExtTreeSet ResourceKey :=
  match previous with
  | some previous => if reclassified then resources.erase previous else resources
  | none => resources

def planOpenClastVault (manifest : Manifest) (config : Config) (scope : ReconcileScope)
    (world : PassWorld) (previousResources : Str → Option ResourceKey) (loop : VaultLoop)
    (vault : VaultRegistration) : Except Error VaultLoop := do
  let resource ← requireResource config vault
  let reclassified := vaultReclassified B manifest previousResources vault resource
  let nextResources :=
    withdrawReclassified loop.nextResources (previousResources vault.id) reclassified
  if !(world.vault vault).isDir then
    let message :=
      if reclassified then
        "vault root is unavailable after registration change; withheld last committed content " ++
          "until it can be reindexed"
      else
        "vault root is unavailable; retained last committed content"
    return ⟨retainVault manifest vault message loop.pass, nextResources⟩
  else
    let context := openClastContext B config scope world previousResources vault resource
    return ⟨planVault B manifest context vault (world.vault vault) loop.pass,
      nextResources.insert resource⟩

/-- A source of an unregistered vault: its row goes, and its documents in the partition it was
recorded under and in the one its vault is published under. -/
def removeUnregistered (manifest : Manifest) (previousResources : Str → Option ResourceKey)
    (plan : ReconcilePlan) (key : SourceKey) : ReconcilePlan :=
  match manifest.files[key]? with
  | none => plan
  | some row =>
    ((row.resource.toList ++ (previousResources row.vaultId).toList).map .resource).foldl
      (fun plan scope => plan.removeIndexSource key scope) (plan.removeManifestSource key)

def openClastStart (manifest : Manifest) (layout : GenerationLayout) (config : Config)
    (scope : ReconcileScope) (auditCursor : ℕ) (previousResources : Str → Option ResourceKey) :
    VaultLoop :=
  let state := initialPassState manifest config scope auditCursor
  { pass :=
      { state with
        plan := (manifest.unregisteredKeys config).foldl
          (removeUnregistered manifest previousResources) state.plan }
    nextResources := Std.ExtTreeSet.ofList
      (layout.resources.filter fun resource => resource.vaultId ∈ config.vaultIds) }

/-! ## §5 The sweep -/

/-- Whether a recorded source may be served in the partition of a resource. -/
def Config.expects (config : Config) (row : ManifestFile) (resource : ResourceKey) : Bool :=
  row.resource = some resource && row.outcome = .indexed &&
    (config.registration row.vaultId).any fun vault =>
      registrationFingerprint B.hash vault = row.registrationFingerprint

/-- The source keys present in an index. -/
def partitionSourceKeys (documents : List Document) : Std.ExtTreeSet SourceKey :=
  Std.ExtTreeSet.ofList (documents.map Document.sourceKey)

/-- Plans the removal of everything in one partition that the next manifest does not expect
    there. -/
def sweepPartition (config : Config) (partitions : Std.ExtTreeMap ResourceKey (List Document))
    (faults : PassFaults) (plan : ReconcilePlan) (resource : ResourceKey) :
    Except Error ReconcilePlan :=
  match partitions[resource]? with
  | none => .ok plan
  | some documents => do
    faults.attempt (.openPartition resource)
    let unexpected := (partitionSourceKeys documents).toList.filter fun key =>
      !plan.nextManifest.files[key]?.any fun row => config.expects B row resource
    return unexpected.foldl (fun plan key => plan.removeIndexSource key (.resource resource)) plan

/-- What planning a pass yields. -/
structure OpenClastPlan where
  pass : PassState
  plan : ReconcilePlan
  layout : GenerationLayout

def planOpenClast (manager : OpenClastIndexManager) (config : Config) (scope : ReconcileScope)
    (env : PassEnv) : Except Error OpenClastPlan := do
  let previousResources ← resourcesByVault manager.layout
  let loop ← config.vaults.foldlM
    (planOpenClastVault B manager.manifest config scope env.world previousResources)
    (openClastStart manager.manifest manager.layout config scope manager.auditCursor
      previousResources)
  let layout ← GenerationLayout.openclast B loop.nextResources
  let plan ← layout.resources.foldlM
    (sweepPartition B config manager.active.partitions env.faults) loop.pass.plan
  plan.validateRetention
  return ⟨loop.pass, plan, layout⟩

/-! ## §6 A pass -/

/-- The partitions an update touches: those with planned changes and those to create. -/
def resourcesToUpdate (partitions : Std.ExtTreeMap ResourceKey (List Document))
    (planned : OpenClastPlan) : Std.ExtTreeSet ResourceKey :=
  Std.ExtTreeSet.ofList
    ((planned.plan.updateScopes.filterMap fun scope =>
        match scope with
        | .resource resource => some resource
        | .whole => none) ++
      planned.layout.resources.filter fun resource => !partitions.contains resource)

/-- One partition of the candidate, created if absent and updated. -/
def updatePartition (planned : OpenClastPlan) (faults : PassFaults)
    (partitions : Std.ExtTreeMap ResourceKey (List Document)) (resource : ResourceKey) :
    Except Error (Std.ExtTreeMap ResourceKey (List Document)) :=
  if resource ∉ planned.layout.resources then
    .ok partitions
  else do
    faults.attempt (.ensurePartition resource)
    let documents ← applyIndexUpdates B (partitions.getD resource [])
      (planned.plan.deletesAt (.resource resource)) (planned.plan.additionsAt (.resource resource))
      (some resource)
    faults.attempt (.updateIndex (.resource resource))
    return partitions.insert resource documents

def stageOpenClast (active : OpenClastGeneration) (planned : OpenClastPlan) (env : PassEnv) :
    Except Error OpenClastGeneration := do
  env.faults.attempt .markSynced
  let manifest := planned.plan.nextManifest.markSynced env.syncTime
  env.faults.attempt .createCandidate
  env.faults.attempt .readPartitions
  -- directories outside the next layout are removed from the copy
  let kept := active.partitions.filter fun resource _ => resource ∈ planned.layout.resources
  let partitions ← (resourcesToUpdate active.partitions planned).toList.foldlM
    (updatePartition B planned env.faults) kept
  planned.layout.validate B
  env.faults.attempt .saveLayout
  manifest.validate B
  env.faults.attempt .saveManifest
  return ⟨env.candidateId, planned.layout, partitions, manifest⟩

namespace OpenClastIndexManager

section

variable (manager : OpenClastIndexManager)

def setFreshnessBasis (basis : IndexFreshnessBasis) : OpenClastIndexManager :=
  { manager with runtime := manager.runtime.setFreshnessBasis basis }

/-- Serves a published generation. -/
def serve (generation : OpenClastGeneration) : OpenClastIndexManager :=
  { manager with
    runtime := manager.runtime.install generation.search
    active := generation
    layout := generation.layout
    manifest := generation.manifest }

/-- Whether a planned pass publishes a generation. -/
def publishes (planned : OpenClastPlan) : Bool :=
  planned.plan.publishes manager.manifest || planned.layout ≠ manager.layout

/-- Stages, publishes and serves the candidate of a plan. -/
def publishPlan (planned : OpenClastPlan) (env : PassEnv) :
    OpenClastIndexManager × Except Error Unit :=
  match stageOpenClast B manager.active planned env with
  | .error error => (manager, .error error)
  | .ok candidate =>
    let (current, published) := publish manager.current candidate env.faults
    let manager := { manager with current := current }
    match published with
    | .error error => (manager, .error error)
    | .ok () =>
      match env.faults.attempt .reopen with
      | .error error => (manager, .error error)
      | .ok () => (manager.serve candidate, .ok ())

def finish (config : Config) (scope : ReconcileScope) (planned : OpenClastPlan) :
    OpenClastIndexManager × ReconcileReport :=
  let manager :=
    { manager with
      auditCursor := if scope = .full then planned.pass.audit.cursor else manager.auditCursor
      config := config }
  (manager, passReport planned.pass planned.plan.changedSourceCount planned.plan.addedChunkCount
    config.basis (manager.runtime.installed.map PartitionedSearchIndex.generation)
    manager.manifest)

def reconcile (config : Config) (scope : ReconcileScope) (env : PassEnv) :
    OpenClastIndexManager × Except Error ReconcileReport :=
  -- the runtime's basis is set before anything can fail
  let started := manager.setFreshnessBasis config.basis
  match planOpenClast B manager config scope env with
  | .error error => (started, .error error)
  | .ok planned =>
    if manager.publishes planned then
      match started.publishPlan B planned env with
      | (failed, .error error) => (failed, .error error)
      | (published, .ok ()) =>
        let (finished, report) := published.finish config scope planned
        (finished, .ok report)
    else
      let (finished, report) := started.finish config scope planned
      (finished, .ok report)

end

end OpenClastIndexManager

/-! ## §7 What a pass leaves -/

namespace OpenClastIndexManager

variable {B} {manager after : OpenClastIndexManager} {config : Config} {scope : ReconcileScope}
  {env : PassEnv}

lemma publishPlan_error {planned : OpenClastPlan} {error : Error}
    (h : manager.publishPlan B planned env = (after, .error error)) :
    ∃ current, after = { manager with current := current } := by
  unfold publishPlan at h
  split at h
  · cases h
    exact ⟨_, rfl⟩
  · simp only at h
    split at h
    · cases h
      exact ⟨_, rfl⟩
    split at h
    · cases h
      exact ⟨_, rfl⟩
    · cases h

lemma publishPlan_ok {planned : OpenClastPlan}
    (h : manager.publishPlan B planned env = (after, .ok ())) :
    ∃ candidate current, stageOpenClast B manager.active planned env = .ok candidate ∧
      after = { manager with current := current }.serve candidate := by
  unfold publishPlan at h
  split at h
  · cases h
  · rename_i candidate hstage
    simp only at h
    split at h
    · cases h
    split at h
    · cases h
    · cases h
      exact ⟨candidate, _, hstage, rfl⟩

/-- A failed pass changes at most the runtime's basis and the store's pointer. -/
theorem reconcile_error_cases {error : Error}
    (h : manager.reconcile B config scope env = (after, .error error)) :
    ∃ current, after = { manager.setFreshnessBasis config.basis with current := current } := by
  unfold reconcile at h
  simp only at h
  split at h
  · cases h
    exact ⟨manager.current, rfl⟩
  split at h
  · split at h
    · rename_i hpublish
      cases h
      exact publishPlan_error hpublish
    · cases h
  · cases h

/-- A successful pass either publishes and serves its candidate or had nothing to publish. -/
theorem reconcile_ok_cases {report : ReconcileReport}
    (h : manager.reconcile B config scope env = (after, .ok report)) :
    ∃ planned, planOpenClast B manager config scope env = .ok planned ∧ after.config = config ∧
      ((∃ candidate, stageOpenClast B manager.active planned env = .ok candidate ∧
          after.active = candidate ∧ after.layout = candidate.layout ∧
          after.manifest = candidate.manifest) ∨
        (manager.publishes planned = false ∧ after.active = manager.active ∧
          after.layout = manager.layout ∧ after.manifest = manager.manifest)) := by
  unfold reconcile at h
  simp only at h
  split at h
  · cases h
  rename_i planned hplanned
  refine ⟨planned, hplanned, ?_⟩
  split at h
  · split at h
    · cases h
    · rename_i published hpublish
      obtain ⟨candidate, current, hstage, rfl⟩ := publishPlan_ok hpublish
      cases h
      exact ⟨rfl, .inl ⟨candidate, hstage, rfl, rfl, rfl⟩⟩
  · rename_i hidle
    cases h
    exact ⟨rfl, .inr ⟨by simpa using hidle, rfl, rfl, rfl⟩⟩

end OpenClastIndexManager

end Kwiry
