import Kwiry.Runtime.Convergence
import Kwiry.Runtime.Partitions

/-!
# Withheld and Complete Partitions

What the published partitions hold along every run of the OpenClast manager. The run
invariant is `Filed`: the documents of a source lie in at most one partition, the one its row
names, and are those of the text its row describes. It says nothing of the current
registrations, which is why it survives every reclassification; the sweep then removes what
the current ones do not allow.

A row can be kept while its documents are withheld, and the decision to ingest a source again
looks at rows only. A pass that makes such a row current again therefore serves a partition
without its documents, and this is the only way a partition falls short of its rows.
-/

namespace Kwiry

open Foundations List Option

variable (B : Build)

/-! ## §1 Runs and their invariant -/

/-- The managers reached from a fresh build by passes, failed ones included. -/
inductive OpenClastRun : OpenClastIndexManager → Prop where
  | opened {built config : Config} {buildEnv env : PassEnv} {generation : OpenClastGeneration}
      {residentDeletions : Bool} {manager : OpenClastIndexManager}
      (hbuild : buildOpenClastIndex B built buildEnv = .ok generation)
      (hopen : OpenClastIndexManager.openManager B config generation residentDeletions env =
        .ok manager) : OpenClastRun manager
  | pass {manager after : OpenClastIndexManager} {config : Config} {scope : ReconcileScope}
      {env : PassEnv} {result : Except Error ReconcileReport} (hrun : OpenClastRun manager)
      (hpass : manager.reconcile B config scope env = (after, result)) : OpenClastRun after

/-- The documents of a key lie in the partition its row names or nowhere. `stamp` is the file as it
was when they were written. -/
def Filed (key : SourceKey) (documents : ResourceKey → List Document) :
    Option ManifestFile → Prop
  | none => ∀ r, documents r = []
  | some row => ∃ (vault : VaultRegistration) (file stamp : DiscoveredFile) (bytes : Bytes)
      (resource : ResourceKey),
      key = sourceKey B.hash vault.id file.relativePath ∧
      RecordsIngest B vault file (.bytes bytes) (some resource) row ∧
      resource.vaultId = vault.id ∧ vault.room = some resource.roomId ∧
      stamp.relativePath = file.relativePath ∧
      ∀ r, documents r = [] ∨
        (r = resource ∧ documents r = (ingestFile B vault stamp (.bytes bytes)).documents B)

structure OpenClastIndexManager.Filed (manager : OpenClastIndexManager) : Prop where
  aligned : manager.Aligned
  filed : ∀ key, Kwiry.Filed B key (fun r => documentsAt (manager.documents r) key)
    manager.manifest.files[key]?

variable {B}

lemma OpenClastIndexManager.Filed.keyed {manager : OpenClastIndexManager}
    (h : manager.Filed B) : manager.manifest.Keyed B := by
  intro key row hget
  have hfiled := h.filed key
  rw [hget] at hfiled
  obtain ⟨vault, file, stamp, bytes, resource, hkey, hrow, -⟩ := hfiled
  rw [hkey, hrow.spec.vaultId, hrow.spec.path]

/-- Removing documents keeps a key filed. -/
theorem Filed.shrink {key : SourceKey} {documents documents' : ResourceKey → List Document}
    {row : Option ManifestFile} (h : Filed B key documents row)
    (hshrink : ∀ r, documents' r = [] ∨ documents' r = documents r) :
    Filed B key documents' row := by
  cases row with
  | none =>
    intro r
    rcases hshrink r with hnil | hsame
    · exact hnil
    · rw [hsame]
      exact h r
  | some row =>
    obtain ⟨vault, file, stamp, bytes, resource, hkey, hrow, hvault, hroom, hstamp, hfiled⟩ := h
    refine ⟨vault, file, stamp, bytes, resource, hkey, hrow, hvault, hroom, hstamp, fun r => ?_⟩
    rcases hshrink r with hnil | hsame
    · exact .inl hnil
    · rw [hsame]
      exact hfiled r

/-! ## §2 A pass keeps the invariant -/

/-- What a settled key holds in a partition: with no row, nothing; with a row, what was added,
behind what was held if the row is expected there and it was not deleted. -/
theorem settle_none {view : KeyView} {config : Config} {r : ResourceKey}
    {before : List Document} (hrow : view.row = none) (hadded : view.added (.resource r) = []) :
    view.settle B config r before = [] := by
  simp [KeyView.settle, hrow, hadded]

variable {row : ManifestFile}

lemma settle_kept {view : KeyView} {config : Config} {r : ResourceKey}
    {before : List Document} (hrow : view.row = some row)
    (hdeleted : view.deleted (.resource r) = false) (hadded : view.added (.resource r) = []) :
    view.settle B config r before = if config.expects B row r then before else [] := by
  cases hexpects : config.expects B row r <;>
    simp [KeyView.settle, hrow, hdeleted, hadded, hexpects]

/-- The cases of a fate of a registered source, with what each leaves of the row and in the view. -/
theorem fate_cases (manager : OpenClastIndexManager) (config : Config)
    (scope : ReconcileScope) (world : PassWorld) (previousResources : Str → Option ResourceKey)
    (vault : VaultRegistration) (resource : ResourceKey) (path : Str) :
    let row := manager.manifest.files[sourceKey B.hash vault.id path]?
    let fate := manager.fate B config scope world previousResources vault resource path
    fate = .untouched ∨ (∃ old, row = some old ∧ fate = .removed old) ∨
      ∃ file bytes next, file.relativePath = path ∧
        RecordsIngest B vault file (.bytes bytes) (some resource) next ∧
        (world.vault vault).isDir = true ∧
        fate = .reconciled next (ingestFile B vault file (.bytes bytes)).plannedChunks := by
  intro row fate
  simp only [fate, OpenClastIndexManager.fate]
  cases hdir : (world.vault vault).isDir with
  | false => exact .inl rfl
  | true =>
    simp only [Bool.not_true, Bool.false_eq_true, if_false]
    have hfingerprint : (openClastContext B config scope world previousResources vault
        resource).fingerprint = registrationFingerprint B.hash vault := rfl
    rcases sourceFate_cases (world.vault vault) _ row path hfingerprint with hfate | hfate | hfate
    · exact .inl hfate
    · exact .inr (.inl hfate)
    · obtain ⟨file, -, bytes, next, hpath, -, hnext, hfate⟩ := hfate
      exact .inr (.inr ⟨file, bytes, next, hpath, hnext, trivial, hfate⟩)

section Pass

variable {manager after : OpenClastIndexManager} {config : Config} {scope : ReconcileScope}
  {env : PassEnv}

variable (B) in
/-- Whether a fate leaves the documents of a source recorded under the current resource as they are:
it is not looked at, or found unchanged. -/
def SourceFate.Keeps (row : ManifestFile) (resource : ResourceKey) :
    SourceFate → Prop
  | .untouched => True
  | .removed _ => False
  | .reconciled next _ =>
    planSource B (some row) next (.resource resource) (some (.resource resource)) = .unchanged

/-- **A pass at a registered source**: dropped, kept, or ingested again. -/
theorem registered_outcome (heffect : PassEffect B manager after config scope env.world)
    (hfiled : manager.Filed B) {vault : VaultRegistration} (hvault : vault ∈ config.vaults)
    (path : Str) :
    ∃ previousResources resource,
      resourcesByVault manager.layout = .ok previousResources ∧
      config.resourceKey vault = some resource ∧
      let key := sourceKey B.hash vault.id path
      let fate := manager.fate B config scope env.world previousResources vault resource path
      let before := fun r => documentsAt (manager.documents r) key
      (after.manifest.files[key]? = none ∧
        (∀ r ∈ after.layout.resources, documentsAt (after.documents r) key = []) ∧
        ∀ old, manager.manifest.files[key]? = some old → ¬ fate.Keeps B old resource) ∨
      (∃ old next, manager.manifest.files[key]? = some old ∧
        after.manifest.files[key]? = some next ∧
        (old.resource = some resource → fate.Keeps B old resource) ∧
        (next = old ∨ ∃ file bytes, file.relativePath = path ∧
          RecordsIngest B vault file (.bytes bytes) (some resource) next ∧
          old.resource = some resource ∧ old.outcome = next.outcome ∧
          old.registrationFingerprint = next.registrationFingerprint ∧
          old.contentHash = next.contentHash) ∧
        ∀ r ∈ after.layout.resources, documentsAt (after.documents r) key =
          if config.expects B next r then before r else []) ∨
      ∃ file bytes next, file.relativePath = path ∧
        RecordsIngest B vault file (.bytes bytes) (some resource) next ∧
        (env.world.vault vault).isDir = true ∧
        after.manifest.files[key]? = some next ∧
        (∀ old, manager.manifest.files[key]? = some old → old.resource = some resource →
          ¬ fate.Keeps B old resource) ∧
        ∀ r ∈ after.layout.resources, documentsAt (after.documents r) key =
          if r = resource then (ingestFile B vault file (.bytes bytes)).documents B else [] := by
  obtain ⟨previousResources, hprevious, hregistered⟩ := heffect.registered
  obtain ⟨resource, hresource, hrow', hdocuments⟩ := hregistered vault hvault path
  refine ⟨previousResources, resource, hprevious, hresource, ?_⟩
  intro key fate before
  set context := openClastContext B config scope env.world previousResources vault resource
    with hcontext
  have hkey : Kwiry.Filed B key before manager.manifest.files[key]? := hfiled.filed key
  rcases fate_cases (B := B) manager config scope env.world previousResources vault resource path
    with hfate | ⟨old, hold, hfate⟩ | ⟨file, bytes, next, hpath, hnext, hdir, hfate⟩
  · rw [hfate] at hrow' hdocuments
    change fate = _ at hfate
    cases hrow : manager.manifest.files[key]? with
    | none =>
      rw [hrow] at hrow' hdocuments
      refine .inl ⟨hrow', fun r hr => ?_, fun old hold => by cases hold⟩
      rw [hdocuments r hr]
      exact settle_none rfl rfl
    | some old =>
      rw [hrow] at hrow' hdocuments
      refine .inr (.inl ⟨old, old, rfl, hrow', fun _ => ?_, .inl rfl, fun r hr => ?_⟩)
      · rw [hfate]
        trivial
      · rw [hdocuments r hr]
        exact settle_kept rfl rfl rfl
  · rw [hfate] at hrow' hdocuments
    change fate = _ at hfate
    have hview : (SourceFate.removed old).apply B context manager.manifest.files[key]?
        (KeyView.initial manager.manifest.files[key]?) =
        (context.removalScopes old).foldl KeyView.delete
          ((KeyView.initial manager.manifest.files[key]?).setRow none) := rfl
    rw [KeyView.foldl_delete] at hview
    refine .inl ⟨hrow'.trans (by rw [hview]; rfl), fun r hr => ?_, fun old' _ => ?_⟩
    · rw [hdocuments r hr, hview]
      exact settle_none rfl rfl
    · rw [hfate]
      exact id
  · rw [hfate] at hrow' hdocuments
    change fate = _ at hfate
    -- a row of another resource is expected nowhere else
    have hforeign : ∀ r, r ≠ resource → config.expects B next r = false := by
      intro r hne
      have hother : next.resource ≠ some r := by
        rw [hnext.spec.resource, Ne, some.injEq]
        exact fun heq => hne heq.symm
      simp [Config.expects, hother]
    have hreingested : ∀ (previous : Option ManifestFile) (reason : ChangeReason),
        manager.manifest.files[key]? = previous →
        planSource B previous next (.resource resource) (context.reconcileScope previous) =
          .reingest reason →
        after.manifest.files[key]? = some next ∧ ∀ r ∈ after.layout.resources,
          documentsAt (after.documents r) key =
            if r = resource then (ingestFile B vault file (.bytes bytes)).documents B else [] := by
      intro previous reason hprev hplan
      have hscope : context.scope = .resource resource := rfl
      rw [hprev] at hrow' hdocuments
      simp only [SourceFate.apply, KeyView.reconcile, hscope, hplan] at hrow' hdocuments
      refine ⟨hrow', fun r hr => ?_⟩
      rw [hdocuments r hr]
      by_cases hr' : r = resource
      · subst hr'
        simp [KeyView.settle, KeyView.setRow, KeyView.add, KeyView.delete, KeyView.initial]
      · simp [KeyView.settle, KeyView.setRow, KeyView.add, KeyView.delete, KeyView.initial, hr',
          hforeign r hr']
    cases hrow : manager.manifest.files[key]? with
    | none =>
      obtain ⟨hnextRow, hnextDocuments⟩ := hreingested none .new hrow rfl
      refine .inr (.inr ⟨file, bytes, next, hpath, hnext, hdir, hnextRow, ?_, hnextDocuments⟩)
      intro old hold
      cases hold
    | some old =>
      rw [hrow] at hkey
      obtain ⟨_, _, _, _, oldResource, -, hold, -⟩ := hkey
      have hscope : context.reconcileScope (some old) = some (.resource oldResource) := by
        simp [VaultContext.reconcileScope, VaultContext.previousScopeOf, hcontext,
          openClastContext, hold.spec.resource]
      cases hplan : planSource B (some old) next (.resource resource)
          (some (.resource oldResource)) with
      | reingest reason =>
        obtain ⟨hnextRow, hnextDocuments⟩ := hreingested (some old) reason hrow
          (by rw [hscope]; exact hplan)
        refine .inr (.inr ⟨file, bytes, next, hpath, hnext, hdir, hnextRow,
          fun old' hold' hresource' hkeeps => ?_, hnextDocuments⟩)
        cases hold'
        rw [hold.spec.resource, some.injEq] at hresource'
        subst hresource'
        rw [hfate] at hkeeps
        change planSource B (some old) next _ _ = _ at hkeeps
        rw [hplan] at hkeeps
        cases hkeeps
      | unchanged =>
        obtain ⟨old', hold', hsame, hfp, -, houtcome, hhash⟩ := planSource_unchanged_iff.mp hplan
        cases hold'
        have hresource' : oldResource = resource := by simpa using hsame
        subst hresource'
        refine .inr (.inl ⟨old, next, rfl, ?_, fun _ => ?_, .inr ⟨file, bytes, hpath, hnext,
          hold.spec.resource, houtcome, hfp, hhash⟩, fun r hr => ?_⟩)
        · rw [hrow', hrow]
          simp only [SourceFate.apply, KeyView.reconcile, hscope]
          rw [show context.scope = .resource oldResource from rfl, hplan]
          rfl
        · rw [hfate]
          exact hplan
        · rw [hdocuments r hr, hrow]
          simp only [SourceFate.apply, KeyView.reconcile, hscope]
          rw [show context.scope = .resource oldResource from rfl, hplan]
          exact settle_kept rfl rfl rfl

lemma OpenClastIndexManager.Filed.reconcile {report : ReconcileReport} (hfiled : manager.Filed B)
    (h : manager.reconcile B config scope env = (after, .ok report)) : after.Filed B := by
  have heffect := passEffect hfiled.keyed hfiled.aligned h
  refine ⟨heffect.aligned, fun key => ?_⟩
  -- only published partitions hold anything
  have hpublished : ∀ documents : ResourceKey → List Document,
      (∀ r ∈ after.layout.resources, documentsAt (after.documents r) key = documents r) → ∀ r,
        documentsAt (after.documents r) key = [] ∨
          documentsAt (after.documents r) key = documents r := by
    intro documents hdocuments r
    by_cases hr : r ∈ after.layout.resources
    · exact .inr (hdocuments r hr)
    · left
      rw [heffect.aligned.documents_eq_nil hr]
      rfl
  by_cases hregistered : ∃ vault ∈ config.vaults, ∃ path, sourceKey B.hash vault.id path = key
  · obtain ⟨vault, hvault, path, rfl⟩ := hregistered
    obtain ⟨previousResources, resource, -, hresource, houtcome⟩ :=
      registered_outcome heffect hfiled hvault path
    rcases houtcome with ⟨hrow, hnil, -⟩ | ⟨old, next, hold, hrow, -, hnext, hkept⟩ |
      ⟨file, bytes, next, hpath, hnext, -, hrow, -, hdocuments⟩
    · rw [hrow]
      intro r
      rcases hpublished (fun _ => []) hnil r with hr | hr <;> exact hr
    · have hbefore := hfiled.filed (sourceKey B.hash vault.id path)
      rw [hold] at hbefore
      have hless : ∀ r, documentsAt (after.documents r) (sourceKey B.hash vault.id path) = [] ∨
          documentsAt (after.documents r) (sourceKey B.hash vault.id path) =
            documentsAt (manager.documents r) (sourceKey B.hash vault.id path) := by
        intro r
        rcases hpublished _ hkept r with hr | hr
        · exact .inl hr
        · split at hr
          · exact .inr hr
          · exact .inl hr
      have hshrunk := hbefore.shrink hless
      rw [hrow]
      rcases hnext with rfl | ⟨file, bytes, hpath, hnext, hsame, -, hfp, hhash⟩
      · exact hshrunk
      · -- the refreshed row describes the text that was stored
        obtain ⟨oldVault, oldFile, stamp, oldBytes, oldResource, hkey, holdRow, -, -, hstamp,
          hstored⟩ := hshrunk
        obtain ⟨hid, hroom, hfile, rfl⟩ := holdRow.congr hnext (by rw [← hkey, hpath]) hfp hhash
        have hresource' : oldResource = resource := by
          rw [holdRow.spec.resource, some.injEq] at hsame
          exact hsame
        subst hresource'
        refine ⟨vault, file, stamp, oldBytes, oldResource, by rw [hpath], hnext,
          Config.vaultId_of_resourceKey hresource, Config.room_of_resourceKey hresource,
          hstamp.trans hfile, fun r => ?_⟩
        rcases hstored r with hr | ⟨hr, hdocuments⟩
        · exact .inl hr
        · refine .inr ⟨hr, hdocuments.trans ?_⟩
          exact (ingestFile_documents_restamp hid hroom (hstamp.trans hfile)).trans
            (ingestFile_documents_restamp rfl rfl (hstamp.trans hfile)).symm
    · rw [hrow]
      refine ⟨vault, file, file, bytes, resource, by rw [hpath], hnext,
        Config.vaultId_of_resourceKey hresource, Config.room_of_resourceKey hresource, rfl,
        fun r => ?_⟩
      rcases hpublished _ hdocuments r with hr | hr
      · exact .inl hr
      · split at hr
        · rename_i hsame
          exact .inr ⟨hsame, hr⟩
        · exact .inl hr
  · simp only [not_exists, not_and] at hregistered
    obtain ⟨hrow, hnil⟩ := heffect.unregistered key hregistered
    rw [hrow]
    intro r
    rcases hpublished (fun _ => []) hnil r with hr | hr <;> exact hr

end Pass

/-! ## §3 A build and an open establish it -/

variable {resource : ResourceKey}

section Built

variable {config : Config} {world : PassWorld}

/-- What a build leaves for one source is filed. -/
theorem filed_builtSource (vault : VaultRegistration) (files : VaultWorld)
    (hresource : config.resourceKey vault = some resource) (path : Str) :
    Filed B (sourceKey B.hash vault.id path)
      (fun r => if r = resource then (builtSource B (some resource) vault files path).1 else [])
      (builtSource B (some resource) vault files path).2 := by
  unfold builtSource
  cases hfind : files.files.find? fun file => file.relativePath = path with
  | none =>
    intro r
    exact ite_self _
  | some file =>
    have hpath : file.relativePath = path := by simpa using find?_some hfind
    simp only
    cases hrow : ManifestFile.fromOutcome B (ingestFile B vault file (files.read path))
        (registrationFingerprint B.hash vault) (some resource) with
    | none =>
      -- an unrecorded outcome has no chunks
      have hnil : (ingestFile B vault file (files.read path)).chunks = [] := by
        by_contra hchunks
        have hsome := fromOutcome_isSome_of_chunks (some resource) hchunks
        rw [hrow] at hsome
        cases hsome
      intro r
      simp [FileIngestOutcome.documents, hnil]
    | some entry =>
      obtain ⟨-, hrecords⟩ := fromOutcome_ingestFile hrow
      obtain ⟨bytes, hread, -⟩ := hrecords.spec.contentHash
      rw [hread] at hrecords
      refine ⟨vault, file, file, bytes, resource, by rw [hpath], hrecords,
        Config.vaultId_of_resourceKey hresource, Config.room_of_resourceKey hresource, rfl,
        fun r => ?_⟩
      by_cases hr : r = resource
      · exact .inr ⟨hr, (if_pos hr).trans (by rw [hread])⟩
      · exact .inl (if_neg hr)

variable {vault : VaultRegistration} {build build' : OpenClastBuild}

lemma requireResource_ok :
    requireResource config vault = .ok resource ↔ config.resourceKey vault = some resource := by
  unfold requireResource
  cases config.resourceKey vault <;> simp

/-- One vault of a build: its keys are filed under its resource, and nothing else moves except that
its partition is written anew. -/
theorem buildPartition_ok (h : buildPartition B config world build vault = .ok build') :
    ∃ resource built, config.resourceKey vault = some resource ∧
      buildVault B (some resource) vault (world.vault vault)
        { build.state with documents := [] } = .ok built ∧
      build'.state = built ∧ build'.partitions = build.partitions.insert resource built.documents := by
  unfold buildPartition at h
  obtain ⟨resource, hresource, h⟩ := except_bind_ok h
  split at h
  · cases h
  obtain ⟨built, hbuilt, h⟩ := except_bind_ok h
  cases h
  exact ⟨resource, built, requireResource_ok.mp hresource, hbuilt, rfl, rfl⟩

/-- Every key of a build is filed. -/
def OpenClastBuild.Filed (B : Build) (build : OpenClastBuild) : Prop :=
  ∀ key, Kwiry.Filed B key (fun r => documentsAt (build.partitions.getD r []) key)
    build.state.manifest.files[key]?

lemma filed_buildPartition (hfiled : build.Filed B)
    (hfresh : ∀ path, build.state.manifest.files[sourceKey B.hash vault.id path]? = none)
    (h : buildPartition B config world build vault = .ok build') : build'.Filed B := by
  obtain ⟨resource, built, hresource, hbuilt, hstate, hpartitions⟩ := buildPartition_ok h
  have hpartition : ∀ r, build'.partitions.getD r [] =
      if r = resource then built.documents else build.partitions.getD r [] := by
    intro r
    rw [hpartitions, Std.ExtTreeMap.getD_insert]
    by_cases hr : r = resource
    · simp [hr]
    · rw [if_neg hr, if_neg]
      rw [Std.LawfulEqCmp.compare_eq_iff_eq]
      exact fun heq => hr heq.symm
  intro key
  have hbefore := hfiled key
  by_cases hown : ∃ path, sourceKey B.hash vault.id path = key
  · obtain ⟨path, rfl⟩ := hown
    have hview := view_buildVault hbuilt path (Prod.ext rfl (hfresh path))
    rw [hfresh path] at hbefore
    have hbuiltFiled := filed_builtSource (B := B) vault (world.vault vault) hresource path
    rw [← hview] at hbuiltFiled
    rw [hstate]
    refine hbuiltFiled.shrink fun r => .inr ?_
    rw [hpartition r]
    split
    · rfl
    · exact hbefore r
  · simp only [not_exists] at hown
    have hview := view_buildVault_of_ne hbuilt key hown
    obtain ⟨hnil, hsame⟩ := Prod.mk.injEq .. ▸ hview
    rw [hstate, show built.manifest.files[key]? = build.state.manifest.files[key]? from hsame]
    refine hbefore.shrink fun r => ?_
    rw [hpartition r]
    split
    · exact .inl hnil
    · exact .inr rfl

/-- A vault records keys of its own id only. -/
theorem files_buildPartition_ne (h : buildPartition B config world build vault = .ok build')
    (key : SourceKey) (hne : ∀ path, sourceKey B.hash vault.id path ≠ key) :
    build'.state.manifest.files[key]? = build.state.manifest.files[key]? := by
  obtain ⟨resource, built, -, hbuilt, hstate, -⟩ := buildPartition_ok h
  rw [hstate]
  exact (Prod.mk.injEq .. ▸ view_buildVault_of_ne hbuilt key hne).2

lemma filed_buildPartitions {vaults : List VaultRegistration}
    (hnodup : (vaults.map VaultRegistration.id).Nodup) (hfiled : build.Filed B)
    (hfresh : ∀ vault ∈ vaults, ∀ path, build.state.manifest.files[sourceKey B.hash vault.id path]? = none)
    (h : vaults.foldlM (buildPartition B config world) build = .ok build') :
    build'.Filed B ∧ ∀ r, r ∈ build'.partitions ↔
      r ∈ build.partitions ∨ ∃ vault ∈ vaults, config.resourceKey vault = some r := by
  induction vaults generalizing build with
  | nil =>
    cases h
    exact ⟨hfiled, by simp⟩
  | cons vault rest ih =>
    obtain ⟨next, hvault, hrest⟩ := foldlM_cons_ok _ h
    rw [map_cons, nodup_cons] at hnodup
    have hnext := filed_buildPartition hfiled (hfresh vault mem_cons_self) hvault
    have hfreshRest : ∀ other ∈ rest, ∀ path,
        next.state.manifest.files[sourceKey B.hash other.id path]? = none := by
      intro other hother path
      rw [files_buildPartition_ne hvault _ fun path' hkey => hnodup.1 ?_,
        hfresh other (mem_cons_of_mem _ hother) path]
      rw [(sourceKey_inj B.hash hkey).1]
      exact mem_map_of_mem hother
    obtain ⟨hdone, hdomain⟩ := ih hnodup.2 hnext hfreshRest hrest
    refine ⟨hdone, fun r => ?_⟩
    obtain ⟨resource, built, hresource, -, -, hpartitions⟩ := buildPartition_ok hvault
    rw [hdomain r, hpartitions, Std.ExtTreeMap.mem_insert, exists_mem_cons_iff, hresource,
      some.injEq, Std.LawfulEqCmp.compare_eq_iff_eq]
    tauto

lemma buildOpenClastIndex_filed {generation : OpenClastGeneration} {env : PassEnv}
    (h : buildOpenClastIndex B config env = .ok generation) :
    (∀ r, r ∈ generation.partitions ↔ r ∈ generation.layout.resources) ∧
      ∀ key, Filed B key (fun r => documentsAt (generation.partitions.getD r []) key)
        generation.manifest.files[key]? := by
  unfold buildOpenClastIndex at h
  split at h
  · cases h
  obtain ⟨candidate, hcandidate, h⟩ := except_bind_ok (attempt_bind_ok h)
  have h := attempt_bind_ok (attempt_bind_ok h)
  cases h
  unfold buildOpenClastCandidate at hcandidate
  obtain ⟨resources, hresources, hcandidate⟩ := except_bind_ok hcandidate
  obtain ⟨layout, hlayout, hcandidate⟩ := except_bind_ok hcandidate
  obtain ⟨build, hbuild, hcandidate⟩ := except_bind_ok hcandidate
  obtain ⟨_, -, hcandidate⟩ := except_bind_ok (attempt_bind_ok hcandidate)
  obtain ⟨_, -, hcandidate⟩ := except_bind_ok (attempt_bind_ok hcandidate)
  obtain ⟨_, -, hcandidate⟩ := except_bind_ok (attempt_bind_ok hcandidate)
  cases hcandidate
  have hempty : (⟨BuildState.initial, ∅⟩ : OpenClastBuild).Filed B := by
    intro key r
    simp [documentsAt]
  obtain ⟨hfiled, hdomain⟩ := filed_buildPartitions config.vaults_nodup hempty
    (fun _ _ _ => rfl) hbuild
  refine ⟨fun r => ?_, hfiled⟩
  rw [hdomain r, GenerationLayout.openclast_ok hlayout, Std.ExtTreeSet.mem_ofList,
    contains_iff_mem, mem_of_mapM_ok hresources]
  simp only [Std.ExtTreeMap.not_mem_empty, false_or, requireResource_ok]

/-- An open of a build has nothing to evict, so it serves what was built. -/
theorem openManager_filed {generation : OpenClastGeneration} {residentDeletions : Bool}
    {env : PassEnv} {manager : OpenClastIndexManager}
    (haligned : ∀ r, r ∈ generation.partitions ↔ r ∈ generation.layout.resources)
    (hfiled : ∀ key, Filed B key (fun r => documentsAt (generation.partitions.getD r []) key)
      generation.manifest.files[key]?)
    (h : OpenClastIndexManager.openManager B config generation residentDeletions env =
      .ok manager) : manager.Filed B := by
  have hevicted : generation.manifest.evictedKeys B = [] := by
    rw [eq_nil_iff_forall_not_mem]
    intro key hmem
    obtain ⟨row, hrow, hstale⟩ := Manifest.mem_keysWhere.mp hmem
    have hkey := hfiled key
    rw [hrow] at hkey
    obtain ⟨_, _, _, _, _, -, hrecords, -⟩ := hkey
    simp [hrecords.spec.identity] at hstale
  unfold OpenClastIndexManager.openManager at h
  obtain ⟨_, -, h⟩ := except_bind_ok h
  obtain ⟨active, hactive, h⟩ := except_bind_ok h
  obtain ⟨_, -, h⟩ := except_bind_ok h
  have h := attempt_bind_ok h
  cases h
  have hsame : active.partitions = generation.partitions ∧ active.layout = generation.layout ∧
      active.manifest.files = generation.manifest.files := by
    unfold repairedPartitions Manifest.adopt at hactive
    simp only [hevicted, findSome?_nil] at hactive
    split at hactive
    · cases hactive
      exact ⟨rfl, rfl, rfl⟩
    · have hactive := attempt_bind_ok (attempt_bind_ok hactive)
      obtain ⟨partitions, hpartitions, hactive⟩ := except_bind_ok hactive
      obtain ⟨_, -, hactive⟩ := except_bind_ok (attempt_bind_ok hactive)
      have hactive := attempt_bind_ok (attempt_bind_ok (attempt_bind_ok hactive))
      cases hactive
      cases hpartitions
      exact ⟨rfl, rfl, rfl⟩
  obtain ⟨hpartitions, hlayout, hfiles⟩ := hsame
  refine ⟨fun r => ?_, fun key => ?_⟩
  · change r ∈ active.partitions ↔ r ∈ active.layout.resources
    rw [hpartitions, hlayout]
    exact haligned r
  · change Filed B key (fun r => documentsAt (active.partitions.getD r []) key)
      active.manifest.files[key]?
    rw [hpartitions, hfiles]
    exact hfiled key

end Built

lemma filed_of_run {manager : OpenClastIndexManager} (hrun : OpenClastRun B manager) :
    manager.Filed B := by
  induction hrun with
  | opened hbuild hopen =>
    obtain ⟨haligned, hfiled⟩ := buildOpenClastIndex_filed hbuild
    exact openManager_filed haligned hfiled hopen
  | pass _ hpass ih =>
    rename_i result _
    cases result with
    | ok report => exact ih.reconcile hpass
    | error error =>
      obtain ⟨current, rfl⟩ := OpenClastIndexManager.reconcile_error_cases hpass
      exact ⟨ih.aligned, ih.filed⟩

/-! ## §4 What a published partition holds -/

section

variable {manager after : OpenClastIndexManager} {config : Config} {scope : ReconcileScope}
  {env : PassEnv} {r : ResourceKey}

/-- Whether a recorded source may be served in a partition, spelled out. -/
theorem expects_iff :
    config.expects B row r = true ↔ row.resource = some r ∧ row.outcome = .indexed ∧
      ∃ vault ∈ config.vaults, vault.id = row.vaultId ∧
        registrationFingerprint B.hash vault = row.registrationFingerprint := by
  simp only [Config.expects, Bool.and_eq_true, decide_eq_true_eq, Option.any_eq_true, and_assoc]
  refine and_congr_right fun _ => and_congr_right fun _ => ⟨?_, ?_⟩
  · rintro ⟨vault, hvault, hfp⟩
    obtain ⟨hmem, hid⟩ := Config.mem_of_registration hvault
    exact ⟨vault, hmem, hid, hfp⟩
  · rintro ⟨vault, hmem, hid, hfp⟩
    exact ⟨vault, hid ▸ Config.registration_of_mem hmem, hfp⟩

variable {vault : VaultRegistration}

/-- A row just ingested under a vault's resource is expected there if it has chunks. -/
theorem expects_ingested (hvault : vault ∈ config.vaults) {file : DiscoveredFile}
    {read : SnapshotRead} (hrow : RecordsIngest B vault file read (some r) row)
    (hcount : row.chunkCount ≠ 0) : config.expects B row r = true :=
  expects_iff.mpr ⟨hrow.spec.resource, hrow.spec.outcome hcount, vault, hvault,
    hrow.spec.vaultId.symm, hrow.spec.fingerprint.symm⟩

/-- The vault a published partition belongs to is the one that owns the sources in it. -/
theorem resourceKey_of_published
    (heffect : PassEffect B manager after config scope env.world) (hr : r ∈ after.layout.resources)
    (hvault : vault ∈ config.vaults) (hid : r.vaultId = vault.id) :
    config.resourceKey vault = some r ∧ manager.Serves B env.world vault r := by
  obtain ⟨owner, howner, hkey, hserves⟩ := (heffect.layout r).mp hr
  have hsame : owner = vault :=
    Config.eq_of_id_eq howner hvault ((Config.vaultId_of_resourceKey hkey).symm.trans hid)
  subst hsame
  exact ⟨hkey, hserves⟩

/-- Nothing is left in a published partition that its rows do not expect there. -/
theorem expected_of_documents (heffect : PassEffect B manager after config scope env.world)
    (hfiled : manager.Filed B) (hr : r ∈ after.layout.resources) {key : SourceKey}
    (hdocuments : documentsAt (after.documents r) key ≠ []) :
    ∃ row, after.manifest.files[key]? = some row ∧ config.expects B row r = true := by
  by_cases hregistered : ∃ vault ∈ config.vaults, ∃ path, sourceKey B.hash vault.id path = key
  · obtain ⟨vault, hvault, path, rfl⟩ := hregistered
    obtain ⟨previousResources, resource, -, hresource, houtcome⟩ :=
      registered_outcome heffect hfiled hvault path
    rcases houtcome with ⟨-, hnil, -⟩ | ⟨old, next, -, hrow, -, -, hkept⟩ |
      ⟨file, bytes, next, -, hnext, -, hrow, -, hingested⟩
    · exact absurd (hnil r hr) hdocuments
    · refine ⟨next, hrow, ?_⟩
      by_contra hno
      exact hdocuments ((hkept r hr).trans (if_neg hno))
    · rw [hingested r hr] at hdocuments
      split at hdocuments
      · rename_i hsame
        subst hsame
        refine ⟨next, hrow, expects_ingested hvault hnext fun hzero => hdocuments ?_⟩
        rw [hnext.chunkCount_eq rfl] at hzero
        exact eq_nil_of_length_eq_zero hzero
      · exact absurd rfl hdocuments
  · simp only [not_exists, not_and] at hregistered
    exact absurd ((heffect.unregistered key hregistered).2 r hr) hdocuments

/-- **Withholding.** After any run, a successful pass leaves in a published partition only documents
of sources recorded as indexed, under that partition's resource and the current registration of
their vault, and each is a document of an ingest under that registration. -/
theorem reconcile_withholds (hrun : OpenClastRun B manager) {report : ReconcileReport}
    (hpass : manager.reconcile B config scope env = (after, .ok report))
    (hr : r ∈ after.layout.resources) {document : Document} (hmem : document ∈ after.documents r) :
    ∃ row vault, after.manifest.files[document.sourceKey]? = some row ∧
      row.outcome = .indexed ∧ row.resource = some r ∧
      vault ∈ after.config.vaults ∧ vault.id = row.vaultId ∧
      row.registrationFingerprint = registrationFingerprint B.hash vault ∧
      after.config.resourceKey vault = some r ∧
      ∃ file stamp bytes, RecordsIngest B vault file (.bytes bytes) (some r) row ∧
        stamp.relativePath = file.relativePath ∧
        document ∈ (ingestFile B vault stamp (.bytes bytes)).documents B := by
  have hfiled := filed_of_run hrun
  have heffect := passEffect hfiled.keyed hfiled.aligned hpass
  have hat : document ∈ documentsAt (after.documents r) document.sourceKey :=
    mem_filter.mpr ⟨hmem, by simp⟩
  obtain ⟨row, hrow, hexpects⟩ :=
    expected_of_documents heffect hfiled hr (ne_nil_of_mem hat)
  obtain ⟨hresource, houtcome, vault, hvault, hid, hfp⟩ := expects_iff.mp hexpects
  -- the registration the text was read under is the current one
  have hafter := (hfiled.reconcile hpass).filed document.sourceKey
  rw [hrow] at hafter
  obtain ⟨ingested, file, stamp, bytes, resource, -, hrecords, howner, hroom, hstamp, hstored⟩ :=
    hafter
  rw [hrecords.spec.resource, some.injEq] at hresource
  subst hresource
  have hids : vault.id = ingested.id := hid.trans hrecords.spec.vaultId
  obtain ⟨hkey, -⟩ := resourceKey_of_published heffect hr hvault (howner.trans hids.symm)
  have hpath : vault.path = ingested.path :=
    (registrationFingerprint_inj B.hash (hfp.trans hrecords.spec.fingerprint)).2.1
  have hsame : ingested = vault := by
    have hrooms := (Config.room_of_resourceKey hkey).trans hroom.symm
    cases ingested
    cases vault
    simp_all
  subst hsame
  refine ⟨row, ingested, hrow, houtcome, hrecords.spec.resource, ?_, hid,
    hrecords.spec.fingerprint, ?_, file, stamp, bytes, hrecords, hstamp, ?_⟩
  · rw [heffect.configured]
    exact hvault
  · rw [heffect.configured]
    exact hkey
  · rcases hstored resource with hnil | ⟨-, hdocuments⟩
    · rw [show documentsAt _ _ = _ from hnil] at hat
      cases hat
    · rw [← hdocuments]
      exact hat

/-! ## §5 Complete partitions -/

variable (B) in
/-- Every published partition has documents for exactly the sources its rows say. -/
def OpenClastIndexManager.Complete (manager : OpenClastIndexManager) : Prop :=
  ∀ r ∈ manager.layout.resources, ∀ key,
    documentsAt (manager.documents r) key ≠ [] ↔
      ∃ row, manager.manifest.files[key]? = some row ∧ manager.config.expects B row r = true ∧
        0 < row.chunkCount

variable (B) in
/-- No source of a published partition is recorded as indexed under the current registration while
its documents are withheld and the pass leaves it as it is. -/
def OpenClastIndexManager.RevivesNothing (manager : OpenClastIndexManager) (config : Config)
    (scope : ReconcileScope) (world : PassWorld) : Prop :=
  ∀ vault ∈ config.vaults, ∀ path resource row previousResources,
    config.resourceKey vault = some resource → manager.Serves B world vault resource →
    resourcesByVault manager.layout = .ok previousResources →
    manager.manifest.files[sourceKey B.hash vault.id path]? = some row →
    config.expects B row resource = true → 0 < row.chunkCount →
    documentsAt (manager.documents resource) (sourceKey B.hash vault.id path) = [] →
    ¬ (manager.fate B config scope world previousResources vault resource path).Keeps B row resource

/-- A row that a pass keeps is expected where it was, with the chunks it had. -/
theorem kept_row_congr (config : Config) {path : Str} {old next : ManifestFile}
    {documents : ResourceKey → List Document}
    (hfiled : Filed B (sourceKey B.hash vault.id path) documents (some old))
    (hnext : next = old ∨ ∃ file bytes, file.relativePath = path ∧
      RecordsIngest B vault file (.bytes bytes) (some resource) next ∧
      old.resource = some resource ∧ old.outcome = next.outcome ∧
      old.registrationFingerprint = next.registrationFingerprint ∧
      old.contentHash = next.contentHash) :
    (∀ r, config.expects B next r = config.expects B old r) ∧
      next.chunkCount = old.chunkCount := by
  rcases hnext with rfl | ⟨file, bytes, hpath, hnext, hresource, houtcome, hfp, hhash⟩
  · exact ⟨fun _ => rfl, rfl⟩
  · obtain ⟨oldVault, oldFile, stamp, oldBytes, oldResource, hkey, hold, -⟩ := hfiled
    obtain ⟨hid, hroom, hfile, rfl⟩ := hold.congr hnext (by rw [← hkey, hpath]) hfp hhash
    refine ⟨fun r => ?_, ?_⟩
    · unfold Config.expects
      rw [hresource, hnext.spec.resource, houtcome, hfp, hnext.spec.vaultId, hold.spec.vaultId, hid]
    · rw [hnext.chunkCount_eq rfl, hold.chunkCount_eq rfl,
        ingestFile_documents_restamp hid hroom hfile, length_map]

/-- A row that a pass leaves unserved in its partition was withheld before and kept. -/
theorem withheld_of_unserved (heffect : PassEffect B manager after config scope env.world)
    (hfiled : manager.Filed B) (hr : r ∈ after.layout.resources) (hvault : vault ∈ config.vaults)
    (hid : r.vaultId = vault.id) {path : Str}
    (hrow : after.manifest.files[sourceKey B.hash vault.id path]? = some row)
    (hexpects : config.expects B row r = true) (hcount : 0 < row.chunkCount)
    (hnil : documentsAt (after.documents r) (sourceKey B.hash vault.id path) = []) :
    ¬ manager.RevivesNothing B config scope env.world := by
  intro hrevives
  obtain ⟨hkey, hserves⟩ := resourceKey_of_published heffect hr hvault hid
  obtain ⟨previousResources, resource, hprevious, hresource, houtcome⟩ :=
    registered_outcome heffect hfiled hvault path
  rw [hkey, some.injEq] at hresource
  subst hresource
  rcases houtcome with ⟨hnone, -⟩ | ⟨old, next, hold, hnext, hkeeps, hnextOr, hkept⟩ |
    ⟨file, bytes, next, -, hnext, -, hnextRow, -, hingested⟩
  · rw [hrow] at hnone
    cases hnone
  · rw [hrow, some.injEq] at hnext
    subst hnext
    have hbefore := hfiled.filed (sourceKey B.hash vault.id path)
    rw [hold] at hbefore
    obtain ⟨hexpectsEq, hcountEq⟩ := kept_row_congr config hbefore hnextOr
    rw [hexpectsEq] at hexpects
    have hwithheld := hkept r hr
    rw [hexpectsEq, if_pos hexpects, hnil] at hwithheld
    exact hrevives vault hvault path r old previousResources hkey hserves hprevious hold hexpects
      (hcountEq ▸ hcount) hwithheld.symm (hkeeps (expects_iff.mp hexpects).1)
  · rw [hrow, some.injEq] at hnextRow
    subst hnextRow
    rw [hingested r hr, if_pos rfl] at hnil
    rw [hnext.chunkCount_eq rfl, hnil] at hcount
    exact absurd hcount (Nat.lt_irrefl 0)

/-- A withheld row that a pass keeps stays unserved. -/
theorem unserved_of_withheld (heffect : PassEffect B manager after config scope env.world)
    (hfiled : manager.Filed B) (hvault : vault ∈ config.vaults) {path : Str}
    {previousResources : Str → Option ResourceKey} (hkey : config.resourceKey vault = some r)
    (hprevious : resourcesByVault manager.layout = .ok previousResources)
    (hrow : manager.manifest.files[sourceKey B.hash vault.id path]? = some row)
    (hexpects : config.expects B row r = true)
    (hwithheld : documentsAt (manager.documents r) (sourceKey B.hash vault.id path) = [])
    (hkeeps : (manager.fate B config scope env.world previousResources vault r path).Keeps B row r)
    (hr : r ∈ after.layout.resources) :
    documentsAt (after.documents r) (sourceKey B.hash vault.id path) = [] ∧
      ∃ next, after.manifest.files[sourceKey B.hash vault.id path]? = some next ∧
        config.expects B next r = true ∧ next.chunkCount = row.chunkCount := by
  obtain ⟨previousResources', resource, hprevious', hresource, houtcome⟩ :=
    registered_outcome heffect hfiled hvault path
  rw [hkey, some.injEq] at hresource
  subst hresource
  rw [hprevious, Except.ok.injEq] at hprevious'
  subst hprevious'
  rcases houtcome with ⟨-, -, hdropped⟩ | ⟨old, next, hold, hnext, -, hnextOr, hkept⟩ |
    ⟨-, -, -, -, -, -, -, hreingested, -⟩
  · exact absurd hkeeps (hdropped row hrow)
  · rw [hrow, some.injEq] at hold
    subst hold
    have hbefore := hfiled.filed (sourceKey B.hash vault.id path)
    rw [hrow] at hbefore
    obtain ⟨hexpectsEq, hcountEq⟩ := kept_row_congr config hbefore hnextOr
    refine ⟨?_, next, hnext, (hexpectsEq r).trans hexpects, hcountEq⟩
    rw [hkept r hr, hexpectsEq, if_pos hexpects]
    exact hwithheld
  · exact absurd hkeeps (hreingested row hrow (expects_iff.mp hexpects).1)

/-- **Completeness.** After any run, a successful pass leaves complete partitions exactly when it
revives nothing. -/
theorem reconcile_complete_iff (hrun : OpenClastRun B manager) {report : ReconcileReport}
    (hpass : manager.reconcile B config scope env = (after, .ok report)) :
    after.Complete B ↔ manager.RevivesNothing B config scope env.world := by
  have hfiled := filed_of_run hrun
  have hfiled' := hfiled.reconcile hpass
  have heffect := passEffect hfiled.keyed hfiled.aligned hpass
  constructor
  · intro hcomplete vault hvault path resource row previousResources hkey hserves hprevious hrow
      hexpects hcount hwithheld hkeeps
    have hr : resource ∈ after.layout.resources :=
      (heffect.layout resource).mpr ⟨vault, hvault, hkey, hserves⟩
    obtain ⟨hnil, next, hnext, hnextExpects, hnextCount⟩ := unserved_of_withheld heffect hfiled
      hvault hkey hprevious hrow hexpects hwithheld hkeeps hr
    refine (hcomplete resource hr _).mpr ⟨next, hnext, ?_, hnextCount ▸ hcount⟩ hnil
    rw [heffect.configured]
    exact hnextExpects
  · intro hrevives r hr key
    have hkeyFiled := hfiled'.filed key
    constructor
    · intro hdocuments
      obtain ⟨row, hrow, hexpects⟩ := expected_of_documents heffect hfiled hr hdocuments
      refine ⟨row, hrow, by rwa [heffect.configured], ?_⟩
      rw [hrow] at hkeyFiled
      obtain ⟨_, file, stamp, bytes, resource, -, hrecords, -, -, hstamp, hstored⟩ := hkeyFiled
      rcases hstored r with hnil | ⟨-, hingested⟩
      · exact absurd hnil hdocuments
      · rw [hrecords.chunkCount_eq hstamp, ← hingested]
        exact length_pos_of_ne_nil hdocuments
    · rintro ⟨row, hrow, hexpects, hcount⟩ hnil
      rw [heffect.configured] at hexpects
      obtain ⟨hresource, -, vault, hvault, hid, -⟩ := expects_iff.mp hexpects
      rw [hrow] at hkeyFiled
      obtain ⟨ingested, file, _, _, resource, hkey, hrecords, howner, -⟩ := hkeyFiled
      rw [hrecords.spec.resource, some.injEq] at hresource
      subst hresource
      have hids : ingested.id = vault.id := hrecords.spec.vaultId.symm.trans hid.symm
      rw [hkey, hids] at hrow hnil
      exact withheld_of_unserved heffect hfiled hr hvault (howner.trans hids) hrow hexpects hcount
        hnil hrevives

end

/-! ## §6 A room changed while the vault was away, and changed back -/

/-- The vault of the note, classified under a room. -/
def roomConfig (room : Str) : Config :=
  { noteConfig with
    tenantId := some ⟨['t'], by decide⟩
    vaults := [{ noteVault with room := some room }]
    vaults_nodup := by simp }

def oldRoom : Str := ⟨['r'], by decide⟩
def newRoom : Str := ⟨['s'], by decide⟩

/-- The note while its vault is not mounted. -/
def absentEnv : PassEnv :=
  { noteEnv 0 with
    world := { noteWorld 0 with vault := fun vault => { (noteWorld 0).vault vault with isDir := false } } }

def roomGeneration : OpenClastGeneration :=
  Except.value (buildOpenClastIndex Build.plain (roomConfig oldRoom) (noteEnv 0))
    (by decide +kernel)

def roomManager : OpenClastIndexManager :=
  Except.value (OpenClastIndexManager.openManager Build.plain (roomConfig oldRoom) roomGeneration
    false (noteEnv 0)) (by decide +kernel)

/-- The room changes and the vault cannot be read: the partition is withdrawn, the row stays. -/
def movedPass : OpenClastIndexManager × Except Error ReconcileReport :=
  roomManager.reconcile Build.plain (roomConfig newRoom) .full absentEnv

/-- The room changes back with the vault mounted: the row is current again. -/
def revertedPass : OpenClastIndexManager × Except Error ReconcileReport :=
  movedPass.1.reconcile Build.plain (roomConfig oldRoom) .full (noteEnv 0)

/-- The vault of the note, and a second one that is classified under a room. -/
def roomsConfig (room : Str) : Config :=
  { roomConfig oldRoom with
    vaults := [{ noteVault with room := some oldRoom },
      { noteVault with id := ⟨['w'], by decide⟩, path := ⟨['/', 'w'], by decide⟩, room := some room }]
    vaults_nodup := show ([noteVault.id, ⟨['w'], by decide⟩] : List Str).Nodup by decide }

def roomsGeneration : OpenClastGeneration :=
  Except.value (buildOpenClastIndex Build.plain (roomsConfig oldRoom) (noteEnv 0))
    (by decide +kernel)

def roomsManager : OpenClastIndexManager :=
  Except.value (OpenClastIndexManager.openManager Build.plain (roomsConfig oldRoom) roomsGeneration
    false (noteEnv 0)) (by decide +kernel)

/-- The second vault is moved to another room. -/
def roomPass : OpenClastIndexManager × Except Error ReconcileReport :=
  roomsManager.reconcile Build.plain (roomsConfig newRoom) .full (noteEnv 0)

def roomResource : ResourceKey := ⟨⟨['t'], by decide⟩, noteVault.id, oldRoom⟩

lemma movedPass_ok : movedPass.2.toOption.isSome = true := by decide +kernel
lemma revertedPass_ok : revertedPass.2.toOption.isSome = true := by decide +kernel
lemma roomPass_ok : roomPass.2.toOption.isSome = true := by decide +kernel

lemma roomManager_run : OpenClastRun Build.plain roomManager := by
  have hbuild : buildOpenClastIndex Build.plain (roomConfig oldRoom) (noteEnv 0) =
      .ok roomGeneration := Except.eq_ok_value _
  exact .opened hbuild (Except.eq_ok_value _)

lemma movedPass_eq : roomManager.reconcile Build.plain (roomConfig newRoom) .full absentEnv =
    (movedPass.1, .ok (Except.value movedPass.2 movedPass_ok)) := by
  rw [← Except.eq_ok_value movedPass_ok, Prod.mk.eta, movedPass]

lemma revertedPass_eq :
    movedPass.1.reconcile Build.plain (roomConfig oldRoom) .full (noteEnv 0) =
      (revertedPass.1, .ok (Except.value revertedPass.2 revertedPass_ok)) := by
  rw [← Except.eq_ok_value revertedPass_ok, Prod.mk.eta, revertedPass]

lemma roomsManager_run : OpenClastRun Build.plain roomsManager := by
  have hbuild : buildOpenClastIndex Build.plain (roomsConfig oldRoom) (noteEnv 0) =
      .ok roomsGeneration := Except.eq_ok_value _
  exact .opened hbuild (Except.eq_ok_value _)

lemma roomPass_eq : roomsManager.reconcile Build.plain (roomsConfig newRoom) .full (noteEnv 0) =
    (roomPass.1, .ok (Except.value roomPass.2 roomPass_ok)) := by
  rw [← Except.eq_ok_value roomPass_ok, Prod.mk.eta, roomPass]

/-- The withholding result at the note of the first vault, which is served. -/
theorem roomPass_withholds : ∃ document ∈ roomPass.1.documents roomResource,
    ∃ row vault, roomPass.1.manifest.files[document.sourceKey]? = some row ∧
      row.outcome = .indexed ∧ row.resource = some roomResource ∧
      vault ∈ roomPass.1.config.vaults ∧ vault.id = row.vaultId ∧
      row.registrationFingerprint = registrationFingerprint Build.plain.hash vault ∧
      roomPass.1.config.resourceKey vault = some roomResource ∧
      ∃ file stamp bytes, RecordsIngest Build.plain vault file (.bytes bytes) (some roomResource) row ∧
        stamp.relativePath = file.relativePath ∧
        document ∈ (ingestFile Build.plain vault stamp (.bytes bytes)).documents Build.plain := by
  have hr : roomResource ∈ roomPass.1.layout.resources := by decide +kernel
  have hlength : 0 < (roomPass.1.documents roomResource).length := by decide +kernel
  have hmem := getElem_mem hlength
  exact ⟨_, hmem, reconcile_withholds roomsManager_run roomPass_eq hr hmem⟩

/-- The completeness result at the reverted room. -/
theorem revertedPass_complete_iff :
    revertedPass.1.Complete Build.plain ↔
      movedPass.1.RevivesNothing Build.plain (roomConfig oldRoom) .full (noteWorld 0) :=
  reconcile_complete_iff (.pass roomManager_run movedPass_eq) revertedPass_eq

/-- Two successful passes after a build leave the note recorded and its partition empty. -/
theorem revertedPass_not_complete :
    buildOpenClastIndex Build.plain (roomConfig oldRoom) (noteEnv 0) = .ok roomGeneration ∧
    OpenClastIndexManager.openManager Build.plain (roomConfig oldRoom) roomGeneration false
      (noteEnv 0) = .ok roomManager ∧
    (∃ report, roomManager.reconcile Build.plain (roomConfig newRoom) .full absentEnv =
      (movedPass.1, .ok report)) ∧
    (∃ report, movedPass.1.reconcile Build.plain (roomConfig oldRoom) .full (noteEnv 0) =
      (revertedPass.1, .ok report)) ∧
    ¬ revertedPass.1.Complete Build.plain := by
  refine ⟨Except.eq_ok_value _, Except.eq_ok_value _, ⟨_, movedPass_eq⟩, ⟨_, revertedPass_eq⟩, ?_⟩
  intro hcomplete
  set key := sourceKey Build.plain.hash noteVault.id ⟨['a', '.', 'm', 'd'], by decide⟩
  have hrow : (revertedPass.1.manifest.files[key]?.any fun row =>
      revertedPass.1.config.expects Build.plain row roomResource && 0 < row.chunkCount) = true := by
    decide +kernel
  have hempty : (documentsAt (revertedPass.1.documents roomResource) key).isEmpty = true := by
    decide +kernel
  have hr : roomResource ∈ revertedPass.1.layout.resources := by decide +kernel
  obtain ⟨row, hrow, hexpected⟩ := any_eq_true _ _ |>.mp hrow
  obtain ⟨hexpects, hcount⟩ := Bool.and_eq_true_iff.mp hexpected
  exact (hcomplete roomResource hr key).mpr ⟨row, hrow, hexpects, by simpa using hcount⟩
    (isEmpty_iff.mp hempty)

end Kwiry
