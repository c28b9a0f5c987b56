import Kwiry.Reconcile

/-!
# Observing and Planning a Vault

The part of a pass that both index managers share: observing one available vault, the loop
over its outcomes and the loop over its recorded but unseen sources.

A key is touched by the one vault whose id it was derived from. `SourceFate` says what a
vault's two loops do with a key, and `view_planVault` proves that this is all they do.
-/

namespace Kwiry

open Foundations List

/-! ## §1 Observation -/

/-- What a pass finds: its vaults, the clock, and the semantic store's recorded hashes. -/
structure PassWorld where
  vault : VaultRegistration → VaultWorld
  nowNanos : ℕ
  semanticHash : Option (SourceKey → Option Digest)

/-- What a pass knows of the vault it observes. Without a resource the whole index is one
    partition. -/
structure VaultContext where
  fingerprint : Digest
  (resource previousResource : Option ResourceKey)
  policy : ObservationPolicy
  semanticHash : Option (SourceKey → Option Digest)
  readScope : Option (List Str)

namespace VaultContext

def scope (context : VaultContext) : PartitionScope :=
  match context.resource with
  | none => .whole
  | some resource => .resource resource

/-- The scope a recorded row was indexed under. -/
def previousScopeOf (context : VaultContext) (row : ManifestFile) : PartitionScope :=
  match context.resource with
  | none => .whole
  | some current => .resource ((row.resource.or context.previousResource).getD current)

end VaultContext

variable (B : Build)

/-- The watcher evidence for one vault. -/
def vaultReadScope (scope : ReconcileScope) (vaultId : Str) : Option (List Str) :=
  match scope with
  | .full => none
  | .paths evidence =>
    some ((evidence.filter fun entry => entry.1 = vaultId).map Prod.snd)

def observeFile (vault : VaultRegistration) (manifest : Manifest) (context : VaultContext)
    (file : DiscoveredFile) : ObservationDecision :=
  let key := sourceKey B.hash vault.id file.relativePath
  let previous := manifest.files[key]?
  -- a source missing from the semantic store needs its bytes even when metadata is reusable
  let semanticBackfill :=
    context.policy.basis ≠ .strictHash &&
      match context.semanticHash, previous with
      | some stored, some row =>
        0 < row.chunkCount &&
          stored key ≠ some (B.embeddingSourceIdentity row.contentHash row.format)
      | _, _ => false
  let forcedRead := context.readScope.any fun paths => paths.contains file.relativePath
  planObservation B previous file context.fingerprint context.scope
    (previous.map context.previousScopeOf) context.policy ⟨forcedRead, semanticBackfill⟩

structure VaultObservations where
  outcomes : List FileIngestOutcome
  reusedKeys : Std.ExtTreeSet SourceKey
  (sourceFilesRead sourceBytesRead auditedSources : ℕ)
  auditPending : Bool

/-- The sources an audit may pick: those whose metadata would be reused. -/
def auditCandidates (vault : VaultRegistration) (world : VaultWorld) (manifest : Manifest)
    (context : VaultContext) : List (SourceKey × ℕ) :=
  (world.files.filter fun file =>
    observeFile B vault manifest context file = .reuseMetadata).map fun file =>
      (sourceKey B.hash vault.id file.relativePath, file.byteLength)

/-- Whether a file's bytes are read, given the audited keys. -/
def readsFile (vault : VaultRegistration) (manifest : Manifest) (context : VaultContext)
    (audited : Std.ExtTreeSet SourceKey) (file : DiscoveredFile) : Bool :=
  observeFile B vault manifest context file ≠ .reuseMetadata ||
    audited.contains (sourceKey B.hash vault.id file.relativePath)

def observeVault (vault : VaultRegistration) (world : VaultWorld) (manifest : Manifest)
    (context : VaultContext) (audit : AuditBudget) : VaultObservations × AuditBudget :=
  let candidates := auditCandidates B vault world manifest context
  let (audit, audited) := audit.select candidates
  let reads := readsFile B vault manifest context audited
  let outcomes := (world.files.filter reads).map fun file =>
    ingestFile B vault file (world.read file.relativePath)
  let reused := (world.files.filter fun file => !reads file).map fun file =>
    sourceKey B.hash vault.id file.relativePath
  ({ outcomes := outcomes
     reusedKeys := Std.ExtTreeSet.ofList reused
     sourceFilesRead := outcomes.length
     sourceBytesRead :=
       ((outcomes.filter fun outcome => outcome.contentHash.isSome).map
         FileIngestOutcome.byteLength).sum
     auditedSources := audited.size
     auditPending := audited.size < candidates.length },
    audit)

/-! ## §2 Planning a vault -/

/-- The state of the outcome loop. -/
structure OutcomeLoop where
  plan : ReconcilePlan
  seenKeys : Std.ExtTreeSet SourceKey
  warnings : List IngestWarning

def FileIngestOutcome.plannedChunks (outcome : FileIngestOutcome) : List PlannedChunk :=
  outcome.chunks.map fun chunk => (chunk, outcome.retrieval)

@[simp] lemma FileIngestOutcome.plannedChunks_documents (outcome : FileIngestOutcome) :
    outcome.plannedChunks.map (fun planned => chunkDocument B planned.1 planned.2) =
      outcome.documents B := by
  simp [plannedChunks, documents, Function.comp_def]

/-- The scope `reconcileSource` is told a row was indexed under: the whole-index manager passes
none. -/
def VaultContext.reconcileScope (context : VaultContext) (row : Option ManifestFile) :
    Option PartitionScope :=
  match context.resource with
  | none => none
  | some _ => row.map context.previousScopeOf

/-- One outcome: retained when its read failed, reconciled when it is recorded, and otherwise left
to count as unseen. -/
def planOutcome (manifest : Manifest) (context : VaultContext) (loop : OutcomeLoop)
    (outcome : FileIngestOutcome) : OutcomeLoop :=
  let key := sourceKey B.hash outcome.vaultId outcome.path
  let warnings := loop.warnings ++ outcome.warning.toList
  let previous := manifest.files[key]?
  if outcome.kind = .transientError then
    { plan :=
        match previous with
        | some row => loop.plan.retainSource key row .transientReadError
        | none => loop.plan
      seenKeys := loop.seenKeys.insert key
      warnings := warnings }
  else
    match ManifestFile.fromOutcome B outcome context.fingerprint context.resource with
    | none => { loop with warnings := warnings }
    | some (_, next) =>
      { plan := loop.plan.reconcileSource B key previous next context.scope
          (context.reconcileScope previous) outcome.plannedChunks
        seenKeys := loop.seenKeys.insert key
        warnings := warnings }

/-- The scopes a removed row is deleted in. -/
def VaultContext.removalScopes (context : VaultContext) (row : ManifestFile) :
    List PartitionScope :=
  if context.previousScopeOf row = context.scope then [context.scope]
  else [context.previousScopeOf row, context.scope]

/-- One recorded source of the vault: retained when the enumeration is incomplete, removed when it
is complete and did not show it. -/
def planMissing (manifest : Manifest) (context : VaultContext) (discoveryIncomplete : Bool)
    (seenKeys : Std.ExtTreeSet SourceKey) (plan : ReconcilePlan) (key : SourceKey) :
    ReconcilePlan :=
  if seenKeys.contains key then
    plan
  else
    match manifest.files[key]? with
    | none => plan
    | some row =>
      if discoveryIncomplete then
        plan.retainSource key row .incompleteEnumeration
      else
        (context.removalScopes row).foldl (fun plan scope => plan.removeIndexSource key scope)
          (plan.removeManifestSource key)

/-- The recorded keys of a vault. -/
def Manifest.keysOfVault (manifest : Manifest) (vaultId : Str) : List SourceKey :=
  manifest.keysWhere fun row => row.vaultId = vaultId

/-- The accumulated state of a pass. -/
structure PassState where
  plan : ReconcilePlan
  audit : AuditBudget
  warnings : List IngestWarning
  unavailableVaults : List Str
  (sourceFilesRead sourceBytesRead auditedSources : ℕ)
  auditPending : Bool

/-- An available vault: observation, outcomes, then the unseen sources. -/
def planVault (manifest : Manifest) (context : VaultContext) (vault : VaultRegistration)
    (world : VaultWorld) (state : PassState) : PassState :=
  let (observed, audit) := observeVault B vault world manifest context state.audit
  let loop := observed.outcomes.foldl (planOutcome B manifest context)
    ⟨state.plan, observed.reusedKeys, state.warnings ++ world.warnings⟩
  let plan := (manifest.keysOfVault vault.id).foldl
    (planMissing manifest context (!world.completeness.mayInferDeletions) loop.seenKeys)
    loop.plan
  { plan := plan
    audit := audit
    warnings := loop.warnings
    unavailableVaults := state.unavailableVaults
    sourceFilesRead := state.sourceFilesRead + observed.sourceFilesRead
    sourceBytesRead := state.sourceBytesRead + observed.sourceBytesRead
    auditedSources := state.auditedSources + observed.auditedSources
    auditPending := state.auditPending || observed.auditPending }

/-- An unavailable vault: every recorded source is retained. -/
def retainVault (manifest : Manifest) (vault : VaultRegistration) (message : String)
    (state : PassState) : PassState :=
  { state with
    plan := (manifest.keysOfVault vault.id).foldl
      (fun plan key =>
        match manifest.files[key]? with
        | some row => plan.retainSource key row .vaultUnavailable
        | none => plan)
      state.plan
    warnings := state.warnings ++ [⟨vault.path.chars, message⟩]
    unavailableVaults := state.unavailableVaults ++ [vault.id] }

/-! ## §3 The fate of a key -/

/-- What a vault's loops do with one of its keys. -/
inductive SourceFate where
  | untouched
  | removed (row : ManifestFile)
  | reconciled (next : ManifestFile) (chunks : List PlannedChunk)

/-- The effect of a fate on the plan's view of the key. -/
def SourceFate.apply (context : VaultContext) (previous : Option ManifestFile) :
    SourceFate → KeyView → KeyView
  | untouched, view => view
  | removed row, view => (context.removalScopes row).foldl KeyView.delete (view.setRow none)
  | reconciled next chunks, view =>
    view.reconcile B previous next context.scope (context.reconcileScope previous) chunks

/-- An unseen key: removed if recorded and the enumeration is complete. -/
def missingFate (complete : Bool) (previous : Option ManifestFile) : SourceFate :=
  match previous with
  | none => .untouched
  | some row => if complete then .removed row else .untouched

/-- The fate of the source at a path, given its recorded row and which files are read. -/
def sourceFate (context : VaultContext) (vault : VaultRegistration) (world : VaultWorld)
    (reads : DiscoveredFile → Bool) (previous : Option ManifestFile) (path : Str) : SourceFate :=
  let missing := missingFate world.completeness.mayInferDeletions previous
  match world.files.find? fun file => file.relativePath = path with
  | none => missing
  | some file =>
    if !reads file then .untouched
    else
      let outcome := ingestFile B vault file (world.read path)
      if outcome.kind = .transientError then .untouched
      else
        match ManifestFile.fromOutcome B outcome context.fingerprint context.resource with
        | none => missing
        | some (_, next) => .reconciled next outcome.plannedChunks

/-- The keys audited when a vault is observed under a budget. -/
def auditedKeys (vault : VaultRegistration) (world : VaultWorld) (manifest : Manifest)
    (context : VaultContext) (audit : AuditBudget) : Std.ExtTreeSet SourceKey :=
  (audit.select (auditCandidates B vault world manifest context)).2

/-! ## §4 The outcome loop at one key -/

/-- The outcome loop at a key: the plan's view, and whether the key was seen. -/
def OutcomeLoop.view (loop : OutcomeLoop) (k : SourceKey) : KeyView × Bool :=
  (loop.plan.view B k, loop.seenKeys.contains k)

/-- One iteration of the loop, as a function of the file. -/
def planFile (manifest : Manifest) (context : VaultContext) (vault : VaultRegistration)
    (world : VaultWorld) (loop : OutcomeLoop) (file : DiscoveredFile) : OutcomeLoop :=
  planOutcome B manifest context loop (ingestFile B vault file (world.read file.relativePath))

section Effect

variable (manifest : Manifest) (context : VaultContext) (vault : VaultRegistration)
  (world : VaultWorld)

/-- Reading a file, at its key: the plan's view and whether the key was seen. -/
def fileEffect (file : DiscoveredFile) (loop : KeyView × Bool) : KeyView × Bool :=
  let key := sourceKey B.hash vault.id file.relativePath
  let outcome := ingestFile B vault file (world.read file.relativePath)
  if outcome.kind = .transientError then
    (match manifest.files[key]? with
      | some row => loop.1.setRow (some row)
      | none => loop.1, true)
  else
    match ManifestFile.fromOutcome B outcome context.fingerprint context.resource with
    | none => loop
    | some (_, next) =>
      (loop.1.reconcile B manifest.files[key]? next context.scope
        (context.reconcileScope manifest.files[key]?) outcome.plannedChunks, true)

/-- The loop over a vault's recorded keys, at one of them. -/
def missingEffect (row : ManifestFile) (loop : KeyView × Bool) : KeyView :=
  if loop.2 then loop.1
  else if world.completeness.mayInferDeletions then
    (context.removalScopes row).foldl KeyView.delete (loop.1.setRow none)
  else loop.1.setRow (some row)

/-- The file of a vault that stands under a key. -/
def vaultFile (k : SourceKey) : Option DiscoveredFile :=
  world.files.find? fun file => sourceKey B.hash vault.id file.relativePath = k

/-- A vault's two loops at a key, given which files are read. -/
def vaultEffect (reads : DiscoveredFile → Bool) (k : SourceKey) (view : KeyView) : KeyView :=
  let loop :=
    match vaultFile B vault world k with
    | none => (view, false)
    | some file =>
      if reads file then fileEffect B manifest context vault world file (view, false)
      else (view, true)
  match manifest.files[k]? with
  | none => loop.1
  | some row =>
    if row.vaultId = vault.id then missingEffect context world row loop else loop.1

variable {B manifest context vault world}

lemma plannedChunks_key {file : DiscoveredFile} {read : SnapshotRead} :
    ∀ planned ∈ (ingestFile B vault file read).plannedChunks,
      planned.sourceKey B = sourceKey B.hash vault.id file.relativePath := by
  intro planned hmem
  obtain ⟨chunk, hchunk, rfl⟩ := mem_map.mp hmem
  exact ((ingestFile_spec B vault file read).chunks_key chunk hchunk).1

lemma view_planFile (loop : OutcomeLoop) (file : DiscoveredFile) (k : SourceKey) :
    (planFile B manifest context vault world loop file).view B k =
      if sourceKey B.hash vault.id file.relativePath = k then
        fileEffect B manifest context vault world file (loop.view B k)
      else loop.view B k := by
  have hspec := ingestFile_spec B vault file (world.read file.relativePath)
  by_cases hkey : sourceKey B.hash vault.id file.relativePath = k
  · subst hkey
    simp only [if_true, planFile, planOutcome, hspec.vaultId, hspec.path, fileEffect]
    split
    · cases manifest.files[sourceKey B.hash vault.id file.relativePath]? with
      | none => simp [OutcomeLoop.view]
      | some row => simp [OutcomeLoop.view, ReconcilePlan.view_retainSource]
    · split
      · rfl
      · simp [OutcomeLoop.view, ReconcilePlan.view_reconcileSource plannedChunks_key]
  · simp only [if_neg hkey, planFile, planOutcome, hspec.vaultId, hspec.path]
    split
    · cases manifest.files[sourceKey B.hash vault.id file.relativePath]? with
      | none => simp [OutcomeLoop.view, hkey]
      | some row => simp [OutcomeLoop.view, hkey, ReconcilePlan.view_retainSource]
    · split
      · rfl
      · simp [OutcomeLoop.view, hkey, ReconcilePlan.view_reconcileSource plannedChunks_key]

lemma nodup_fileKeys :
    (world.files.map fun file => sourceKey B.hash vault.id file.relativePath).Nodup := by
  have hnodup := world.files_nodup.map fun a b heq => (sourceKey_inj (v := vault.id) B.hash heq).2
  rwa [map_map] at hnodup

variable {k : SourceKey}

lemma vaultFile_eq_some {file : DiscoveredFile} :
    vaultFile B vault world k = some file ↔
      file ∈ world.files ∧ sourceKey B.hash vault.id file.relativePath = k :=
  find?_key_eq_some_iff nodup_fileKeys

lemma vaultFile_sourceKey (path : Str) :
    vaultFile B vault world (sourceKey B.hash vault.id path) =
      world.files.find? fun file => file.relativePath = path := by
  unfold vaultFile
  congr 1
  funext file
  have hiff : sourceKey B.hash vault.id file.relativePath = sourceKey B.hash vault.id path ↔
      file.relativePath = path :=
    ⟨fun heq => (sourceKey_inj B.hash heq).2, fun heq => heq ▸ rfl⟩
  simp only [hiff]

lemma vaultFile_eq_none (h : ∀ path, sourceKey B.hash vault.id path ≠ k) :
    vaultFile B vault world k = none := by
  rw [vaultFile, find?_eq_none]
  exact fun file _ heq => h file.relativePath (by simpa using heq)

lemma find?_filter_files (reads : DiscoveredFile → Bool) (k : SourceKey) :
    (world.files.filter reads).find? (fun file => sourceKey B.hash vault.id file.relativePath = k) =
      (vaultFile B vault world k).filter reads := by
  ext file
  rw [Option.filter_eq_some_iff, vaultFile_eq_some,
    find?_key_eq_some_iff (nodup_fileKeys.sublist (filter_sublist.map _)), mem_filter,
    and_right_comm]

/-! ## §5 A vault at one key -/

lemma view_planMissing {seen : Std.ExtTreeSet SourceKey} (plan : ReconcilePlan)
    (key k : SourceKey) :
    (planMissing manifest context (!world.completeness.mayInferDeletions) seen plan key).view B k =
      if key = k then
        manifest.files[key]?.elim (plan.view B k) fun row =>
          missingEffect context world row (plan.view B k, seen.contains key)
      else plan.view B k := by
  cases hseen : seen.contains key with
  | true => cases manifest.files[key]? <;> simp [planMissing, hseen, missingEffect]
  | false =>
    cases hprev : manifest.files[key]? with
    | none => simp [planMissing, hseen, hprev]
    | some row =>
      cases hcomplete : world.completeness.mayInferDeletions with
      | false =>
        simp [planMissing, hseen, hprev, missingEffect, hcomplete, ReconcilePlan.view_retainSource]
      | true =>
        simp only [planMissing, hseen, hprev, missingEffect, hcomplete, Bool.not_true,
          Bool.false_eq_true, if_false, if_true, Option.elim_some,
          ReconcilePlan.view_removeIndexSource_foldl, ReconcilePlan.view_eraseRow]
        split <;> rfl

lemma nodup_keysOfVault (vaultId : Str) : (manifest.keysOfVault vaultId).Nodup :=
  manifest.nodup_keysWhere _

lemma mem_keysOfVault {vaultId : Str} :
    k ∈ manifest.keysOfVault vaultId ↔
      ∃ row, manifest.files[k]? = some row ∧ row.vaultId = vaultId := by
  simp [Manifest.keysOfVault, Manifest.mem_keysWhere]

lemma plan_planVault (state : PassState) :
    (planVault B manifest context vault world state).plan =
      let reads := readsFile B vault manifest context
        (auditedKeys B vault world manifest context state.audit)
      let reused := (world.files.filter fun file => !reads file).map fun file =>
        sourceKey B.hash vault.id file.relativePath
      let loop := (world.files.filter reads).foldl (planFile B manifest context vault world)
        ⟨state.plan, Std.ExtTreeSet.ofList reused, state.warnings ++ world.warnings⟩
      (manifest.keysOfVault vault.id).foldl
        (planMissing manifest context (!world.completeness.mayInferDeletions) loop.seenKeys)
        loop.plan := by
  simp only [planVault, observeVault, auditedKeys, foldl_map]
  rfl

/-- The outcome loop at a key: its own file's reading, or its reuse, and nothing else. -/
theorem view_outcomeLoop (manifest : Manifest) (context : VaultContext)
    (vault : VaultRegistration) (world : VaultWorld) (reads : DiscoveredFile → Bool)
    (plan : ReconcilePlan) (warnings : List IngestWarning) (k : SourceKey) :
    ((world.files.filter reads).foldl (planFile B manifest context vault world)
        ⟨plan, Std.ExtTreeSet.ofList ((world.files.filter fun file => !reads file).map fun file =>
          sourceKey B.hash vault.id file.relativePath), warnings⟩).view B k =
      match vaultFile B vault world k with
      | none => (plan.view B k, false)
      | some file =>
        if reads file then
          fileEffect B manifest context vault world file (plan.view B k, false)
        else (plan.view B k, true) := by
  have hseen : (Std.ExtTreeSet.ofList ((world.files.filter fun file => !reads file).map fun file =>
      sourceKey B.hash vault.id file.relativePath)).contains k =
        ((vaultFile B vault world k).filter (!reads ·)).isSome := by
    rw [← find?_filter_files, Std.ExtTreeSet.contains_ofList, Bool.eq_iff_iff, find?_isSome]
    simp [and_assoc]
  rw [view_foldl (OutcomeLoop.view B) (fileEffect B manifest context vault world) view_planFile
    (nodup_fileKeys.sublist (filter_sublist.map _)), find?_filter_files, OutcomeLoop.view, hseen]
  cases vaultFile B vault world k with
  | none => rfl
  | some file => cases hreads : reads file <;> simp [Option.filter, hreads]

/-- **A vault's effect on any key**, for any manifest. -/
theorem view_planVault_eq (state : PassState) (k : SourceKey) :
    (planVault B manifest context vault world state).plan.view B k =
      vaultEffect B manifest context vault world
        (readsFile B vault manifest context
          (auditedKeys B vault world manifest context state.audit)) k (state.plan.view B k) := by
  rw [plan_planVault]
  simp only
  set reads := readsFile B vault manifest context
    (auditedKeys B vault world manifest context state.audit)
  have hloop := view_outcomeLoop (B := B) manifest context vault world reads state.plan
    (state.warnings ++ world.warnings) k
  set loop := (world.files.filter reads).foldl (planFile B manifest context vault world) _
  rw [view_foldl_keys (ReconcilePlan.view B) (fun key view => manifest.files[key]?.elim view
    fun row => missingEffect context world row (view, loop.seenKeys.contains key)) view_planMissing
    (nodup_keysOfVault _)]
  unfold vaultEffect
  rw [← hloop]
  cases hprev : manifest.files[k]? with
  | none => exact ite_self _
  | some row => simp [mem_keysOfVault, hprev, OutcomeLoop.view]

/-- A key that is neither a file's of the vault nor recorded for it. -/
theorem vaultEffect_of_ne {reads : DiscoveredFile → Bool} {view : KeyView}
    (hforeign : ∀ path, sourceKey B.hash vault.id path ≠ k)
    (hrow : ∀ row, manifest.files[k]? = some row → row.vaultId ≠ vault.id) :
    vaultEffect B manifest context vault world reads k view = view := by
  unfold vaultEffect
  rw [vaultFile_eq_none hforeign]
  cases hprev : manifest.files[k]? with
  | none => rfl
  | some row => exact if_neg (hrow row hprev)

/-- **A vault leaves foreign keys alone.** -/
theorem view_planVault_of_ne (hkeyed : manifest.Keyed B) (state : PassState) (k : SourceKey)
    (hforeign : ∀ path, sourceKey B.hash vault.id path ≠ k) :
    (planVault B manifest context vault world state).plan.view B k = state.plan.view B k := by
  rw [view_planVault_eq, vaultEffect_of_ne hforeign]
  intro row hrow hid
  exact hforeign row.path (hid ▸ hkeyed k row hrow).symm

/-- **A vault's effect on its own keys**: from a plan that still shows the recorded row, the two
loops apply the key's fate. -/
theorem view_planVault (hkeyed : manifest.Keyed B) (state : PassState) (path : Str)
    (hrow : (state.plan.view B (sourceKey B.hash vault.id path)).row =
      manifest.files[sourceKey B.hash vault.id path]?) : let key := sourceKey B.hash vault.id path
    let reads := readsFile B vault manifest context
      (auditedKeys B vault world manifest context state.audit)
    (planVault B manifest context vault world state).plan.view B key =
      (sourceFate B context vault world reads manifest.files[key]? path).apply B context
        manifest.files[key]? (state.plan.view B key) := by
  intro key reads
  rw [view_planVault_eq]
  change vaultEffect B manifest context vault world reads key _ = _
  generalize state.plan.view B key = view at hrow ⊢
  -- a key that no reading has shown falls to the second loop
  have hunseen : (match manifest.files[key]? with
      | none => view
      | some row =>
        if row.vaultId = vault.id then missingEffect context world row (view, false) else view) =
      (missingFate world.completeness.mayInferDeletions manifest.files[key]?).apply B context
        manifest.files[key]? view := by
    cases hprev : manifest.files[key]? with
    | none => rfl
    | some row =>
      have hid : row.vaultId = vault.id := (sourceKey_inj B.hash (hkeyed key row hprev)).1.symm
      cases hcomplete : world.completeness.mayInferDeletions with
      | true => simp [hid, missingEffect, hcomplete, missingFate, SourceFate.apply]
      | false =>
        simp [missingEffect, hcomplete, missingFate, SourceFate.apply,
          KeyView.setRow_eq_self (hrow.trans hprev)]
  have hseen : ∀ view, (match manifest.files[key]? with
      | none => view
      | some row =>
        if row.vaultId = vault.id then missingEffect context world row (view, true) else view) =
      view := by
    intro view
    cases manifest.files[key]? with
    | none => rfl
    | some row => exact ite_self _
  unfold vaultEffect sourceFate
  rw [vaultFile_sourceKey]
  cases hfind : world.files.find? fun file => file.relativePath = path with
  | none => exact hunseen
  | some file =>
    have hpath : file.relativePath = path := by simpa using find?_some hfind
    cases hreads : reads file with
    | false =>
      simp only [hreads, Bool.not_false, Bool.false_eq_true, if_false, if_true]
      exact hseen view
    | true =>
      simp only [hreads, Bool.not_true, Bool.false_eq_true, if_false, if_true, fileEffect, hpath]
      by_cases hkind : (ingestFile B vault file (world.read path)).kind = .transientError
      · simp only [if_pos hkind]
        refine (hseen _).trans ?_
        cases hprev : manifest.files[sourceKey B.hash vault.id path]? with
        | none => rfl
        | some row => exact KeyView.setRow_eq_self (hrow.trans hprev)
      · simp only [if_neg hkind]
        cases ManifestFile.fromOutcome B (ingestFile B vault file (world.read path))
          context.fingerprint context.resource with
        | none => exact hunseen
        | some entry => exact hseen _

end Effect

/-! ## §6 The cases of a fate -/

variable {B}

/-- The cases of a fate, with the file a reconciled source was read from. -/
theorem sourceFate_cases {context : VaultContext} {vault : VaultRegistration}
    (world : VaultWorld) (reads : DiscoveredFile → Bool) (previous : Option ManifestFile)
    (path : Str) (hfingerprint : context.fingerprint = registrationFingerprint B.hash vault) :
    sourceFate B context vault world reads previous path = .untouched ∨
      (∃ row, previous = some row ∧
        sourceFate B context vault world reads previous path = .removed row) ∨
      ∃ file ∈ world.files, ∃ bytes next, file.relativePath = path ∧
        world.read path = .bytes bytes ∧
        RecordsIngest B vault file (.bytes bytes) context.resource next ∧
        sourceFate B context vault world reads previous path =
          .reconciled next (ingestFile B vault file (.bytes bytes)).plannedChunks := by
  have hmissing : missingFate world.completeness.mayInferDeletions previous = .untouched ∨
      ∃ row, previous = some row ∧
        missingFate world.completeness.mayInferDeletions previous = .removed row := by
    cases previous with
    | none => exact .inl rfl
    | some row =>
      cases world.completeness.mayInferDeletions with
      | false => exact .inl rfl
      | true => exact .inr ⟨row, rfl, rfl⟩
  unfold sourceFate
  cases hfind : world.files.find? fun file => file.relativePath = path with
  | none => exact hmissing.imp_right .inl
  | some file =>
    have hpath : file.relativePath = path := by simpa using find?_some hfind
    simp only
    split
    · exact .inl rfl
    split
    · exact .inl rfl
    split
    · exact hmissing.imp_right .inl
    · rename_i entry next hrow
      rw [hfingerprint] at hrow
      obtain ⟨-, hrecords⟩ := fromOutcome_ingestFile hrow
      obtain ⟨bytes, hread, -, -⟩ := hrecords.spec.contentHash
      rw [hread] at hrecords
      exact .inr (.inr ⟨file, mem_of_find?_eq_some hfind, bytes, next, hpath, hread,
        hrecords, by rw [hread]⟩)

/-! ## §7 Retained vaults -/

variable {message : String}

/-- A vault that is not mounted only restores its recorded rows. -/
theorem view_retainVault_eq {manifest : Manifest} {vault : VaultRegistration} (state : PassState)
    (k : SourceKey) :
    (retainVault manifest vault message state).plan.view B k =
      match manifest.files[k]? with
      | none => state.plan.view B k
      | some row =>
        if row.vaultId = vault.id then (state.plan.view B k).setRow (some row)
        else state.plan.view B k := by
  have hstep : ∀ (plan : ReconcilePlan) (key k : SourceKey), ((match manifest.files[key]? with
        | some row => plan.retainSource key row .vaultUnavailable
        | none => plan : ReconcilePlan)).view B k =
        if key = k then manifest.files[key]?.elim (plan.view B k) fun row =>
          (plan.view B k).setRow (some row)
        else plan.view B k := by
    intro plan key k
    cases manifest.files[key]? with
    | none => exact (ite_self _).symm
    | some row => exact ReconcilePlan.view_retainSource row _
  refine (view_foldl_keys (ReconcilePlan.view B) (fun key view => manifest.files[key]?.elim view
    fun row => view.setRow (some row)) hstep (nodup_keysOfVault _) _ k).trans ?_
  cases hprev : manifest.files[k]? with
  | none => exact ite_self _
  | some row => simp [mem_keysOfVault, hprev]

/-- Retaining a vault changes no view that still shows its recorded rows. -/
theorem view_retainVault {manifest : Manifest} {vault : VaultRegistration} (state : PassState)
    (k : SourceKey) (hrow : (state.plan.view B k).row = manifest.files[k]?) :
    (retainVault manifest vault message state).plan.view B k = state.plan.view B k := by
  rw [view_retainVault_eq]
  cases hprev : manifest.files[k]? with
  | none => rfl
  | some row => simp [KeyView.setRow_eq_self (hrow.trans hprev)]

/-- Retaining a vault leaves keys alone that are not derived from its id. -/
theorem view_retainVault_of_ne {manifest : Manifest} (hkeyed : manifest.Keyed B)
    {vault : VaultRegistration} (state : PassState) (k : SourceKey)
    (hne : ∀ path, sourceKey B.hash vault.id path ≠ k) :
    (retainVault manifest vault message state).plan.view B k = state.plan.view B k := by
  rw [view_retainVault_eq]
  cases hprev : manifest.files[k]? with
  | none => rfl
  | some row =>
    refine if_neg fun hid => hne row.path ?_
    rw [hkeyed k row hprev, hid]

/-! ## §8 Counted updates -/

lemma counted_planFile {manifest : Manifest} {context : VaultContext} {vault : VaultRegistration}
    {world : VaultWorld} {loop : OutcomeLoop} (file : DiscoveredFile) (h : loop.plan.Counted B) :
    (planFile B manifest context vault world loop file).plan.Counted B := by
  have hspec := ingestFile_spec B vault file (world.read file.relativePath)
  simp only [planFile, planOutcome, hspec.vaultId, hspec.path]
  split
  · cases manifest.files[sourceKey B.hash vault.id file.relativePath]? with
    | none => exact h
    | some row => exact h.retainSource row _
  · split
    · exact h
    · exact h.reconcileSource plannedChunks_key

lemma counted_planMissing {manifest : Manifest} {context : VaultContext}
    {incomplete : Bool} {seen : Std.ExtTreeSet SourceKey} {plan : ReconcilePlan}
    (key : SourceKey) (h : plan.Counted B) :
    (planMissing manifest context incomplete seen plan key).Counted B := by
  unfold planMissing
  split
  · exact h
  split
  · exact h
  split
  · exact h.retainSource _ _
  · exact foldl_induction (fun _ scope hs => hs.removeIndexSource scope) _ h.removeManifestSource

lemma counted_planVault {manifest : Manifest} {context : VaultContext} {vault : VaultRegistration}
    {world : VaultWorld} {state : PassState} (h : state.plan.Counted B) :
    (planVault B manifest context vault world state).plan.Counted B := by
  rw [plan_planVault]
  refine foldl_induction (fun _ key hs => counted_planMissing key hs) _ ?_
  exact foldl_induction (P := fun loop : OutcomeLoop => loop.plan.Counted B)
    (fun _ file hs => counted_planFile file hs) _ h

lemma counted_retainVault {manifest : Manifest} {vault : VaultRegistration} {state : PassState}
    (h : state.plan.Counted B) : (retainVault manifest vault message state).plan.Counted B := by
  refine foldl_induction (fun plan key hs => ?_) _ h
  cases manifest.files[key]? with
  | none => exact hs
  | some row => exact hs.retainSource row _

end Kwiry
