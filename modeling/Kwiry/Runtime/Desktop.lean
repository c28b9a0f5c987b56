import Kwiry.Runtime.Build

/-!
# The Desktop Index Manager

`DesktopIndexManager`: one index for all vaults. A pass plans every vault against the
manifest, stages a candidate generation from the active one, publishes it and serves it.

The generation store is its active pointer here: a publication either leaves the pointer or
moves it to the candidate, and may still fail after moving it. The semantic store is read as
an oracle; its updates follow the committed state and cannot fail a pass.
-/

namespace Kwiry

open Foundations

/-! ## §1 Generations and the manager -/

structure DesktopGeneration where
  id : Text
  documents : List Document
  manifest : Manifest

/-- What the host contributes to one pass. -/
structure PassEnv where
  world : PassWorld
  faults : PassFaults
  syncTime : String
  candidateId : Text

structure DesktopIndexManager where
  /-- The generation the store's pointer names. -/
  (current active : DesktopGeneration)
  search : SearchIndex
  runtime : SearchRuntime SearchIndex
  manifest : Manifest
  config : Config
  auditCursor : ℕ

/-- Moves the store's pointer to a candidate. -/
def publish {Generation : Type} (current candidate : Generation) (faults : PassFaults) :
    Generation × Except Error Unit :=
  match faults.attempt .publish with
  | .error error => (current, .error error)
  -- the rename of the pointer can succeed and its directory sync still fail
  | .ok () => (candidate, faults.attempt .pointerWritten)

variable (B : Build)

/-! ## §2 Building and opening -/

/-- The loop of `build_desktop_candidate` over the vaults. -/
def buildVaults (config : Config) (world : PassWorld) : Except Error BuildState :=
  config.vaults.foldlM (fun state vault => buildVault B none vault (world.vault vault) state)
    BuildState.initial

def buildDesktopCandidate (config : Config) (env : PassEnv) :
    Except Error DesktopGeneration := do
  let built ← buildVaults B config env.world
  env.faults.attempt (.updateIndex .whole)
  env.faults.attempt .markSynced
  let manifest := built.manifest.markSynced env.syncTime
  manifest.validate B
  env.faults.attempt .saveManifest
  verifyCandidate "index" { built with manifest := manifest } built.documents.length
  return ⟨env.candidateId, built.documents, manifest⟩

def buildDesktopIndex (config : Config) (env : PassEnv) : Except Error DesktopGeneration := do
  if config.vaults.isEmpty then
    throw .noVaults
  env.faults.attempt .createCandidate
  let candidate ← buildDesktopCandidate B config env
  env.faults.attempt .publish
  env.faults.attempt .pointerWritten
  return candidate

/-- The rows this build may not reuse. -/
def Manifest.evictedKeys (manifest : Manifest) : List SourceKey :=
  manifest.keysWhere fun row => !row.identityMatches B

/-- Drops every row this build may not reuse. -/
def Manifest.adopt (manifest : Manifest) : Manifest :=
  { manifest with
    files := (manifest.evictedKeys B).foldl (fun files key => files.erase key) manifest.files }

/-- The generation an open serves: the active one, or a published repair of it. -/
def repairedGeneration (active : DesktopGeneration) (residentDeletions : Bool) (env : PassEnv) :
    Except Error DesktopGeneration := do
  let manifest := active.manifest.adopt B
  let evicted := active.manifest.evictedKeys B
  if evicted.isEmpty && !residentDeletions then
    return { active with manifest := manifest }
  env.faults.attempt .markSynced
  let manifest := manifest.markSynced env.syncTime
  env.faults.attempt .createCandidate
  env.faults.attempt .openCandidate
  let documents ← applyIndexUpdates B active.documents (Std.ExtTreeSet.ofList evicted) [] none
  env.faults.attempt (.updateIndex .whole)
  manifest.validate B
  env.faults.attempt .saveManifest
  env.faults.attempt .publish
  env.faults.attempt .pointerWritten
  return ⟨env.candidateId, documents, manifest⟩

namespace DesktopIndexManager

/-- `DesktopIndexManager::open`. -/
def openManager (config : Config) (generation : DesktopGeneration)
    (residentDeletions : Bool) (env : PassEnv) : Except Error DesktopIndexManager := do
  generation.manifest.validateReadable
  let active ← repairedGeneration B generation residentDeletions env
  env.faults.attempt .reopen
  env.faults.attempt .sourceKeyField
  let search : SearchIndex := ⟨active.id, active.documents⟩
  return {
    current := active
    active := active
    search := search
    runtime := ⟨config.basis, some search⟩
    manifest := active.manifest
    config := config
    auditCursor := active.manifest.stateRevision }

end DesktopIndexManager

/-! ## §3 Planning a pass -/

def desktopContext (config : Config) (scope : ReconcileScope) (world : PassWorld)
    (vault : VaultRegistration) : VaultContext where
  fingerprint := registrationFingerprint B.hash vault
  resource := none
  previousResource := none
  policy := observationPolicy config world
  semanticHash := world.semanticHash
  readScope := vaultReadScope scope vault.id

section

variable (manifest : Manifest) (config : Config)

def planDesktopVault (scope : ReconcileScope) (world : PassWorld) (state : PassState)
    (vault : VaultRegistration) : PassState :=
  if !(world.vault vault).isDir then
    retainVault manifest vault "vault root is unavailable; retained last committed content" state
  else
    planVault B manifest (desktopContext B config scope world vault) vault (world.vault vault)
      state

/-- The recorded keys whose vault is no longer registered. -/
def Manifest.unregisteredKeys : List SourceKey :=
  manifest.keysWhere fun row => row.vaultId ∉ config.vaultIds

/-- The pass state after the sources of unregistered vaults were removed. -/
def desktopStart (scope : ReconcileScope) (auditCursor : ℕ) : PassState :=
  let state := initialPassState manifest config scope auditCursor
  { state with
    plan := (manifest.unregisteredKeys config).foldl
      (fun plan key => plan.removeSource key .whole) state.plan }

def planDesktop (scope : ReconcileScope) (auditCursor : ℕ) (world : PassWorld) : PassState :=
  config.vaults.foldl (planDesktopVault B manifest config scope world)
    (desktopStart manifest config scope auditCursor)

end

/-! ## §4 A pass -/

/-- Whether a planned pass publishes a generation. -/
def ReconcilePlan.publishes (plan : ReconcilePlan) (manifest : Manifest) : Bool :=
  plan.nextManifest ≠ manifest || 0 < plan.changedSourceCount || 0 < plan.addedChunkCount

/-- The candidate of a plan: a copy of the active generation, updated. -/
def stageDesktop (active : DesktopGeneration) (plan : ReconcilePlan) (env : PassEnv) :
    Except Error DesktopGeneration := do
  env.faults.attempt .markSynced
  let manifest := plan.nextManifest.markSynced env.syncTime
  env.faults.attempt .createCandidate
  env.faults.attempt .openCandidate
  let documents ← applyIndexUpdates B active.documents (plan.deletesAt .whole)
    (plan.additionsAt .whole) none
  env.faults.attempt (.updateIndex .whole)
  manifest.validate B
  env.faults.attempt .saveManifest
  return ⟨env.candidateId, documents, manifest⟩

namespace DesktopIndexManager

section

variable (manager : DesktopIndexManager)

def setFreshnessBasis (basis : IndexFreshnessBasis) : DesktopIndexManager :=
  { manager with runtime := manager.runtime.setFreshnessBasis basis }

/-- Serves a published generation. -/
def serve (generation : DesktopGeneration) : DesktopIndexManager :=
  let search : SearchIndex := ⟨generation.id, generation.documents⟩
  { manager with
    runtime := manager.runtime.install search
    active := generation
    search := search
    manifest := generation.manifest }

/-- Stages, publishes and serves the candidate of a plan. An error leaves everything but the store's
pointer. -/
def publishPlan (plan : ReconcilePlan) (env : PassEnv) : DesktopIndexManager × Except Error Unit :=
  match stageDesktop B manager.active plan env with
  | .error error => (manager, .error error)
  | .ok candidate =>
    let (current, published) := publish manager.current candidate env.faults
    let manager := { manager with current := current }
    match published with
    | .error error => (manager, .error error)
    | .ok () =>
      match env.faults.attempt .reopen with
      | .error error => (manager, .error error)
      | .ok () =>
        match env.faults.attempt .sourceKeyField with
        | .error error => (manager, .error error)
        | .ok () => (manager.serve candidate, .ok ())

/-- The last, infallible part of a pass. -/
def finish (config : Config) (scope : ReconcileScope) (state : PassState) :
    DesktopIndexManager × ReconcileReport :=
  let manager :=
    { manager with
      auditCursor := if scope = .full then state.audit.cursor else manager.auditCursor
      config := config }
  (manager, passReport state state.plan.changedSourceCount state.plan.addedChunkCount config.basis
    (manager.runtime.installed.map SearchIndex.generation) manager.manifest)

def reconcile (config : Config) (scope : ReconcileScope) (env : PassEnv) :
    DesktopIndexManager × Except Error ReconcileReport :=
  let state := planDesktop B manager.manifest config scope manager.auditCursor env.world
  -- the runtime's basis is set before anything can fail
  let started := manager.setFreshnessBasis config.basis
  match state.plan.validateRetention with
  | .error error => (started, .error error)
  | .ok () =>
    if state.plan.publishes manager.manifest then
      match started.publishPlan B state.plan env with
      | (failed, .error error) => (failed, .error error)
      | (published, .ok ()) =>
        let (finished, report) := published.finish config scope state
        (finished, .ok report)
    else
      let (finished, report) := started.finish config scope state
      (finished, .ok report)

end

end DesktopIndexManager

/-! ## §5 What a pass leaves -/

/-- The documents of a key after a scope was updated. -/
def KeyView.updated (view : KeyView) (scope : PartitionScope) (before : List Document) :
    List Document :=
  (if view.deleted scope then [] else before) ++
    (view.added scope).map fun planned => chunkDocument B planned.1 planned.2

variable {B}

@[simp] lemma KeyView.updated_initial (row : Option ManifestFile) (scope : PartitionScope)
    (before : List Document) : (KeyView.initial row).updated B scope before = before := by
  simp [KeyView.updated, KeyView.initial]

variable {plan : ReconcilePlan}

/-- An index update is its plan, key by key. -/
theorem documentsAt_update {scope : PartitionScope} {documents documents' : List Document}
    {expected : Option ResourceKey}
    (h : applyIndexUpdates B documents (plan.deletesAt scope) (plan.additionsAt scope) expected =
      .ok documents') (k : SourceKey) :
    documentsAt documents' k =
      (plan.view B k).updated B scope (documentsAt documents k) := by
  rw [documentsAt_applyIndexUpdates h]
  rfl

/-- A fallible computation that begins with a host operation and succeeds. -/
theorem attempt_bind_ok {α : Type} {faults : PassFaults} {point : FaultPoint}
    {rest : Unit → Except Error α} {a : α} (h : (faults.attempt point >>= rest) = .ok a) :
    rest () = .ok a := by
  cases hattempt : faults.attempt point with
  | error e =>
    rw [hattempt] at h
    cases h
  | ok u =>
    rw [hattempt] at h
    exact h

lemma except_bind_ok {α β : Type} {x : Except Error α} {rest : α → Except Error β} {b : β}
    (h : (x >>= rest) = .ok b) : ∃ a, x = .ok a ∧ rest a = .ok b := by
  cases x with
  | error e => cases h
  | ok a => exact ⟨a, rfl, h⟩

lemma stageDesktop_ok {active candidate : DesktopGeneration} {env : PassEnv}
    (h : stageDesktop B active plan env = .ok candidate) :
    candidate.manifest.files = plan.nextManifest.files ∧
      ∀ k, documentsAt candidate.documents k =
        (plan.view B k).updated B .whole (documentsAt active.documents k) := by
  unfold stageDesktop at h
  obtain ⟨documents, hdocuments, h⟩ :=
    except_bind_ok (attempt_bind_ok (attempt_bind_ok (attempt_bind_ok h)))
  obtain ⟨_, -, h⟩ := except_bind_ok (attempt_bind_ok h)
  have h := attempt_bind_ok h
  cases h
  exact ⟨rfl, fun k => documentsAt_update hdocuments k⟩

namespace DesktopIndexManager

variable {manager after : DesktopIndexManager} {config : Config} {scope : ReconcileScope}
  {env : PassEnv}

lemma publishPlan_error {error : Error}
    (h : manager.publishPlan B plan env = (after, .error error)) :
    ∃ current, after = { manager with current := current } := by
  unfold publishPlan at h
  split at h
  · cases h
    exact ⟨_, rfl⟩
  · simp only at h
    split at h
    · cases h
      exact ⟨_, rfl⟩
    split at h
    · cases h
      exact ⟨_, rfl⟩
    split at h
    · cases h
      exact ⟨_, rfl⟩
    · cases h

lemma publishPlan_ok (h : manager.publishPlan B plan env = (after, .ok ())) :
    ∃ candidate current, stageDesktop B manager.active plan env = .ok candidate ∧
      after = { manager with current := current }.serve candidate := by
  unfold publishPlan at h
  split at h
  · cases h
  · rename_i candidate hstage
    simp only at h
    split at h
    · cases h
    split at h
    · cases h
    split at h
    · cases h
    · cases h
      exact ⟨candidate, _, hstage, rfl⟩

/-- A failed pass changes at most the runtime's basis and the store's pointer. -/
theorem reconcile_error_cases {error : Error}
    (h : manager.reconcile B config scope env = (after, .error error)) :
    ∃ current, after = { manager.setFreshnessBasis config.basis with current := current } := by
  unfold reconcile at h
  simp only at h
  split at h
  · cases h
    exact ⟨manager.current, rfl⟩
  split at h
  · split at h
    · rename_i hpublish
      cases h
      exact publishPlan_error hpublish
    · cases h
  · cases h

lemma reconcile_ok_cases {report : ReconcileReport}
    (h : manager.reconcile B config scope env = (after, .ok report)) :
    let plan := (planDesktop B manager.manifest config scope manager.auditCursor env.world).plan
    after.config = config ∧ after.runtime.freshnessBasis = config.basis ∧
      ((∃ candidate, stageDesktop B manager.active plan env = .ok candidate ∧
          after.active = candidate ∧ after.manifest = candidate.manifest) ∨
        (plan.publishes manager.manifest = false ∧ after.active = manager.active ∧
          after.manifest = manager.manifest)) := by
  intro plan
  unfold reconcile at h
  simp only at h
  split at h
  · cases h
  split at h
  · split at h
    · cases h
    · rename_i published hpublish
      obtain ⟨candidate, current, hstage, rfl⟩ := publishPlan_ok hpublish
      cases h
      exact ⟨rfl, rfl, .inl ⟨candidate, hstage, rfl, rfl⟩⟩
  · rename_i hidle
    cases h
    exact ⟨rfl, rfl, .inr ⟨by simpa using hidle, rfl, rfl⟩⟩

end DesktopIndexManager

/-! ## §6 The plan of a pass at one key -/

variable {vault : VaultRegistration}

section PlanDesktop

variable {manifest : Manifest} {config : Config} {scope : ReconcileScope} {auditCursor : ℕ}
  {world : PassWorld}

lemma mem_unregisteredKeys {key : SourceKey} :
    key ∈ manifest.unregisteredKeys config ↔
      ∃ row, manifest.files[key]? = some row ∧ row.vaultId ∉ config.vaultIds := by
  simp [Manifest.unregisteredKeys, Manifest.mem_keysWhere]

lemma view_desktopStart (k : SourceKey) :
    (desktopStart manifest config scope auditCursor).plan.view B k =
      if k ∈ manifest.unregisteredKeys config then
        ((KeyView.initial manifest.files[k]?).setRow none).delete .whole
      else KeyView.initial manifest.files[k]? := by
  refine (view_foldl_keys (ReconcilePlan.view B) (fun _ view => (view.setRow none).delete .whole)
    (fun _ _ _ => ReconcilePlan.view_removeSource .whole) (manifest.nodup_keysWhere _)
    (ReconcilePlan.new manifest) k).trans ?_
  rw [ReconcilePlan.view_new]
  by_cases hmem : k ∈ manifest.unregisteredKeys config
  · exact (if_pos hmem).trans (if_pos hmem).symm
  · exact (if_neg hmem).trans (if_neg hmem).symm

/-- The row of an owned key belongs to the owning vault. -/
theorem notMem_unregisteredKeys (hkeyed : manifest.Keyed B) (hvault : vault ∈ config.vaults)
    (path : Str) : sourceKey B.hash vault.id path ∉ manifest.unregisteredKeys config := by
  intro hmem
  obtain ⟨row, hget, hid⟩ := mem_unregisteredKeys.mp hmem
  rw [← (sourceKey_inj B.hash (hkeyed _ row hget)).1] at hid
  exact hid (List.mem_map_of_mem hvault)

lemma view_planDesktopVault_ne (hkeyed : manifest.Keyed B) (state : PassState)
    (vault : VaultRegistration) (k : SourceKey)
    (hne : ¬ ∃ path, sourceKey B.hash vault.id path = k) :
    (planDesktopVault B manifest config scope world state vault).plan.view B k =
      state.plan.view B k := by
  have hforeign : ∀ path, sourceKey B.hash vault.id path ≠ k := fun path h => hne ⟨path, h⟩
  unfold planDesktopVault
  split
  · exact view_retainVault_of_ne hkeyed state k hforeign
  · exact view_planVault_of_ne hkeyed state k hforeign

/-- Registered vaults own disjoint keys. -/
theorem Config.vaults_disjoint (config : Config) (hash : IdealHash) :
    config.vaults.Pairwise fun a b => ∀ k, ¬ ((∃ path, sourceKey hash a.id path = k) ∧
      ∃ path, sourceKey hash b.id path = k) := by
  refine (List.pairwise_map.mp config.vaults_nodup).imp ?_
  rintro a b hne k ⟨⟨p, hp⟩, ⟨q, hq⟩⟩
  exact hne (sourceKey_inj hash (hp.trans hq.symm)).1

/-- **A pass at a key of a registered vault**: nothing when the vault is unavailable, and the key's
fate otherwise. -/
theorem view_planDesktop (scope : ReconcileScope) (auditCursor : ℕ) (world : PassWorld)
    (hkeyed : manifest.Keyed B) (hvault : vault ∈ config.vaults) (path : Str) :
    let key := sourceKey B.hash vault.id path
    let context := desktopContext B config scope world vault
    let view := (planDesktop B manifest config scope auditCursor world).plan.view B key
    ((world.vault vault).isDir = false → view = KeyView.initial manifest.files[key]?) ∧
      ((world.vault vault).isDir = true → ∃ audit,
        view = (sourceFate B context vault (world.vault vault)
          (readsFile B vault manifest context
            (auditedKeys B vault (world.vault vault) manifest context audit))
          manifest.files[key]? path).apply B context manifest.files[key]?
            (KeyView.initial manifest.files[key]?)) := by
  intro key context view
  obtain ⟨state, hstate, hview⟩ := foldl_eq_of_footprint
    (planDesktopVault B manifest config scope world)
    (fun state k => state.plan.view B k)
    (fun vault k => ∃ path, sourceKey B.hash vault.id path = k)
    (view_planDesktopVault_ne hkeyed) config.vaults (config.vaults_disjoint B.hash)
    (desktopStart manifest config scope auditCursor) key vault hvault ⟨path, rfl⟩
  rw [view_desktopStart, if_neg (notMem_unregisteredKeys hkeyed hvault path)] at hstate
  have hrow : (state.plan.view B key).row = manifest.files[key]? := by
    rw [hstate]
    rfl
  change view = _ at hview
  constructor
  · intro hdir
    rw [hview, planDesktopVault, if_pos (by simp [hdir]), view_retainVault state key hrow, hstate]
  · intro hdir
    refine ⟨state.audit, ?_⟩
    rw [hview, planDesktopVault, if_neg (by simp [hdir]), view_planVault hkeyed state path hrow,
      hstate]

/-- A pass at a key of no registered vault removes what is recorded there. -/
theorem view_planDesktop_unregistered (hkeyed : manifest.Keyed B) {k : SourceKey}
    (hne : ∀ vault ∈ config.vaults, ∀ path, sourceKey B.hash vault.id path ≠ k) :
    (planDesktop B manifest config scope auditCursor world).plan.view B k =
      match manifest.files[k]? with
      | none => KeyView.initial none
      | some row => ((KeyView.initial (some row)).setRow none).delete .whole := by
  have hview := foldl_eq_of_no_footprint (planDesktopVault B manifest config scope world)
    (fun state k => state.plan.view B k)
    (fun vault k => ∃ path, sourceKey B.hash vault.id path = k)
    (view_planDesktopVault_ne hkeyed) config.vaults
    (desktopStart manifest config scope auditCursor) k
    (by
      rintro vault hvault ⟨path, hpath⟩
      exact hne vault hvault path hpath)
  change (planDesktop B manifest config scope auditCursor world).plan.view B k = _ at hview
  rw [hview, view_desktopStart]
  cases hget : manifest.files[k]? with
  | none =>
    rw [if_neg]
    intro hmem
    obtain ⟨row, hrow, -⟩ := mem_unregisteredKeys.mp hmem
    rw [hget] at hrow
    cases hrow
  | some row =>
    rw [if_pos]
    refine mem_unregisteredKeys.mpr ⟨row, hget, fun hid => ?_⟩
    obtain ⟨vault, hvault, hid⟩ := List.mem_map.mp hid
    exact hne vault hvault row.path (by rw [hkeyed k row hget, hid])

lemma counted_planDesktop :
    (planDesktop B manifest config scope auditCursor world).plan.Counted B := by
  refine foldl_induction (P := fun state : PassState => state.plan.Counted B) ?_ _ ?_
  · intro state vault h
    unfold planDesktopVault
    split
    · exact counted_retainVault h
    · exact counted_planVault h
  · refine foldl_induction (P := fun plan : ReconcilePlan => plan.Counted B) ?_ _ ?_
    · intro plan key h
      exact h.removeManifestSource.removeIndexSource .whole
    · exact ReconcilePlan.counted_new manifest

end PlanDesktop

/-! ## §7 A pass at one source -/

/-- The row and the documents a manager holds at a key. -/
def DesktopIndexManager.source (manager : DesktopIndexManager) (key : SourceKey) :
    Option ManifestFile × List Document :=
  (manager.manifest.files[key]?, documentsAt manager.active.documents key)

variable (B) in
/-- What a fate leaves of a source's row and documents. -/
def SourceFate.leaves (source : Option ManifestFile × List Document) :
    SourceFate → Option ManifestFile × List Document
  | untouched => source
  | removed _ => (none, [])
  | reconciled next chunks =>
    (some next,
      match planSource B source.1 next .whole none with
      | .unchanged => source.2
      | .reingest _ => chunks.map fun planned => chunkDocument B planned.1 planned.2)

/-- The desktop context deletes and adds in the whole index, so a fate's effect on the view is its
effect on the source. -/
theorem apply_leaves (config : Config) (scope : ReconcileScope) (world : PassWorld)
    (vault : VaultRegistration) (source : Option ManifestFile × List Document) (fate : SourceFate) :
    let view := fate.apply B (desktopContext B config scope world vault) source.1
      (KeyView.initial source.1)
    (view.row, view.updated B .whole source.2) = fate.leaves B source := by
  have hscope : (desktopContext B config scope world vault).scope = .whole := rfl
  cases fate with
  | untouched => simp [SourceFate.apply, SourceFate.leaves, KeyView.initial, KeyView.updated]
  | removed row =>
    have hremoval : (desktopContext B config scope world vault).removalScopes row = [.whole] :=
      if_pos rfl
    simp [SourceFate.apply, SourceFate.leaves, hremoval, KeyView.initial, KeyView.updated,
      KeyView.delete, KeyView.setRow]
  | reconciled next chunks =>
    have hprevious : (desktopContext B config scope world vault).reconcileScope source.1 =
      none := rfl
    simp only [SourceFate.apply, SourceFate.leaves, KeyView.reconcile, hscope, hprevious]
    cases planSource B source.1 next .whole none with
    | unchanged => simp [KeyView.initial, KeyView.updated, KeyView.setRow]
    | reingest reason =>
      simp [KeyView.initial, KeyView.updated, KeyView.setRow, KeyView.delete, KeyView.add]

namespace DesktopIndexManager

section Source

variable {manager after : DesktopIndexManager} {config : Config} {scope : ReconcileScope}
  {env : PassEnv} {report : ReconcileReport}

lemma source_reconcile (h : manager.reconcile B config scope env = (after, .ok report))
    (k : SourceKey) : let view := (planDesktop B manager.manifest config scope manager.auditCursor
      env.world).plan.view B k
    after.source k =
      (view.row, view.updated B .whole (documentsAt manager.active.documents k)) := by
  intro view
  obtain ⟨-, -, ⟨candidate, hstage, hactive, hmanifest⟩ | ⟨hidle, hactive, hmanifest⟩⟩ :=
    reconcile_ok_cases h
  · obtain ⟨hfiles, hdocuments⟩ := stageDesktop_ok hstage
    rw [source, hactive, hmanifest, hfiles, hdocuments k]
    rfl
  · -- nothing was published, so nothing was planned either
    simp only [ReconcilePlan.publishes, Bool.or_eq_false_iff, decide_eq_false_iff_not, not_not,
      not_lt, Nat.le_zero] at hidle
    obtain ⟨⟨hsame, hzero⟩, -⟩ := hidle
    have hview : view = KeyView.initial manager.manifest.files[k]? := by
      rw [← hsame]
      exact counted_planDesktop.view_of_unchanged hzero k
    rw [source, hactive, hmanifest, hview, KeyView.updated_initial]
    rfl

variable (hkeyed : manager.manifest.Keyed B)

include hkeyed

section

variable (h : manager.reconcile B config scope env = (after, .ok report))

include h

/-- A source of an unavailable vault is kept. -/
theorem source_reconcile_unavailable (hvault : vault ∈ config.vaults)
    (hdir : (env.world.vault vault).isDir = false) (path : Str) :
    after.source (sourceKey B.hash vault.id path) =
      manager.source (sourceKey B.hash vault.id path) := by
  rw [source_reconcile h, (view_planDesktop _ _ _ hkeyed hvault path).1 hdir,
    KeyView.updated_initial]
  rfl

/-- **A source of an available vault** meets its fate. -/
theorem source_reconcile_available (hvault : vault ∈ config.vaults)
    (hdir : (env.world.vault vault).isDir = true) (path : Str) :
    ∃ audited, after.source (sourceKey B.hash vault.id path) =
      (sourceFate B (desktopContext B config scope env.world vault) vault (env.world.vault vault)
        (readsFile B vault manager.manifest (desktopContext B config scope env.world vault)
          audited)
        manager.manifest.files[sourceKey B.hash vault.id path]? path).leaves B
          (manager.source (sourceKey B.hash vault.id path)) := by
  obtain ⟨audit, hview⟩ := (view_planDesktop scope manager.auditCursor env.world hkeyed hvault
    path).2 hdir
  refine ⟨auditedKeys B vault (env.world.vault vault) manager.manifest
    (desktopContext B config scope env.world vault) audit, ?_⟩
  rw [source_reconcile h, hview]
  exact apply_leaves config scope env.world vault (manager.source _) _

/-- A source of no registered vault is dropped. -/
theorem source_reconcile_unregistered {k : SourceKey}
    (hne : ∀ vault ∈ config.vaults, ∀ path, sourceKey B.hash vault.id path ≠ k) :
    after.source k = (none, if manager.manifest.files[k]?.isNone then
      documentsAt manager.active.documents k else []) := by
  rw [source_reconcile h, view_planDesktop_unregistered hkeyed hne]
  cases manager.manifest.files[k]? with
  | none => simp [KeyView.initial, KeyView.updated]
  | some row => simp [KeyView.initial, KeyView.updated, KeyView.setRow, KeyView.delete]

end

end Source

end DesktopIndexManager

end Kwiry
