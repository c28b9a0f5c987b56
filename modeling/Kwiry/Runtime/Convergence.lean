import Kwiry.Runtime.Desktop

/-!
# Incremental Passes and Rebuilds

The desktop index after any run, compared with the one a build of the same files would
write. The invariant of a run is `Recorded`: the documents of a recorded source are those of
the text its row describes, under the registration its row names, but possibly with the
modification second of an earlier observation of that text. A pass that finds the text
unchanged refreshes the row and leaves the documents, so this second is all that can differ
from a rebuild.
-/

namespace Kwiry

open Foundations List

variable (B : Build)

/-! ## §1 Runs and their invariant -/

/-- The managers reached from a fresh build by successful passes. -/
inductive DesktopRun : DesktopIndexManager → Prop where
  | opened {built config : Config} {buildEnv env : PassEnv} {generation : DesktopGeneration}
      {residentDeletions : Bool} {manager : DesktopIndexManager}
      (hbuild : buildDesktopIndex B built buildEnv = .ok generation)
      (hopen : DesktopIndexManager.openManager B config generation residentDeletions env =
        .ok manager) : DesktopRun manager
  | pass {manager after : DesktopIndexManager} {config : Config} {scope : ReconcileScope}
      {env : PassEnv} {report : ReconcileReport} (hrun : DesktopRun manager)
      (hpass : manager.reconcile B config scope env = (after, .ok report)) : DesktopRun after

/-- The documents and the row at a key belong together. `stamp` is the file as it was when the
documents were written. -/
def Recorded (key : SourceKey) (documents : List Document) : Option ManifestFile → Prop
  | none => documents = []
  | some row => ∃ (vault : VaultRegistration) (file stamp : DiscoveredFile) (bytes : Bytes),
      key = sourceKey B.hash vault.id file.relativePath ∧
      RecordsIngest B vault file (.bytes bytes) none row ∧
      stamp.relativePath = file.relativePath ∧
      documents = (ingestFile B vault stamp (.bytes bytes)).documents B

/-- Every key of a manager is recorded. -/
def DesktopIndexManager.Recorded (manager : DesktopIndexManager) : Prop :=
  ∀ key, Kwiry.Recorded B key (documentsAt manager.active.documents key)
    manager.manifest.files[key]?

variable {B}

variable {manager : DesktopIndexManager} {vault : VaultRegistration} {config : Config}
  {env : PassEnv} {generation : DesktopGeneration}

lemma DesktopIndexManager.Recorded.keyed (h : manager.Recorded B) : manager.manifest.Keyed B := by
  intro key row hget
  have hrecorded := h key
  rw [hget] at hrecorded
  obtain ⟨vault, file, stamp, bytes, hkey, hrow, -, -⟩ := hrecorded
  rw [hkey, hrow.spec.vaultId, hrow.spec.path]

/-! ## §2 Fresh builds -/

/-- An outcome that is not recorded writes nothing. -/
theorem documents_eq_nil_of_fromOutcome {file : DiscoveredFile} {read : SnapshotRead}
    (h : ManifestFile.fromOutcome B (ingestFile B vault file read)
      (registrationFingerprint B.hash vault) none = none) :
    (ingestFile B vault file read).documents B = [] := by
  have hchunks : (ingestFile B vault file read).chunks = [] := by
    by_contra hne
    have hsome := fromOutcome_isSome_of_chunks (B := B) none hne
    rw [h] at hsome
    cases hsome
  simp [FileIngestOutcome.documents, hchunks]

/-- What a build leaves for a path is recorded. -/
theorem recorded_builtSource (vault : VaultRegistration) (world : VaultWorld) (path : Str) :
    Recorded B (sourceKey B.hash vault.id path) (builtSource B none vault world path).1
      (builtSource B none vault world path).2 := by
  unfold builtSource
  cases hfind : world.files.find? fun file => file.relativePath = path with
  | none => rfl
  | some file =>
    have hpath : file.relativePath = path := by simpa using find?_some hfind
    simp only
    cases hrow : ManifestFile.fromOutcome B (ingestFile B vault file (world.read path))
        (registrationFingerprint B.hash vault) none with
    | none => exact documents_eq_nil_of_fromOutcome hrow
    | some entry =>
      obtain ⟨-, hrecords⟩ := fromOutcome_ingestFile hrow
      obtain ⟨bytes, hread, -, -⟩ := hrecords.spec.contentHash
      rw [hread] at hrecords ⊢
      exact ⟨vault, file, file, bytes, by rw [hpath], hrecords, rfl, rfl⟩

variable {world : PassWorld}

/-- The view of a finished build at every key. -/
theorem view_buildVaults {built : BuildState} (h : buildVaults B config world = .ok built)
    (k : SourceKey) :
    (∀ vault ∈ config.vaults, ∀ path, k = sourceKey B.hash vault.id path →
      built.view k = builtSource B none vault (world.vault vault) path) ∧
    ((∀ vault ∈ config.vaults, ∀ path, sourceKey B.hash vault.id path ≠ k) →
      built.view k = ([], none)) := by
  have hinitial : ∀ k, BuildState.initial.view k = ([], none) := by
    intro k
    simp [BuildState.view, BuildState.initial, documentsAt, Manifest.default]
  have hframe : ∀ (s t : BuildState) (vault : VaultRegistration) (k : SourceKey),
      buildVault B none vault (world.vault vault) s = .ok t →
      (¬ ∃ path, sourceKey B.hash vault.id path = k) → t.view k = s.view k := by
    intro s t vault k hstep hne
    exact view_buildVault_of_ne hstep k fun path hpath => hne ⟨path, hpath⟩
  unfold buildVaults at h
  constructor
  · rintro vault hvault path rfl
    obtain ⟨s, t, hs, hstep, hview⟩ := foldlM_eq_of_footprint
      (fun state vault => buildVault B none vault (world.vault vault) state) BuildState.view
      (fun vault k => ∃ path, sourceKey B.hash vault.id path = k) hframe
      (config.vaults_disjoint B.hash) h (sourceKey B.hash vault.id path) hvault ⟨path, rfl⟩
    rw [hview]
    exact view_buildVault hstep path (hs.trans (hinitial _))
  · intro hne
    rw [foldlM_eq_of_no_footprint
      (fun state vault => buildVault B none vault (world.vault vault) state) BuildState.view
      (fun vault k => ∃ path, sourceKey B.hash vault.id path = k) hframe h k
      (by
        rintro vault hvault ⟨path, hpath⟩
        exact hne vault hvault path hpath), hinitial]

lemma recorded_buildVaults {built : BuildState} (h : buildVaults B config world = .ok built)
    (k : SourceKey) : Recorded B k (documentsAt built.documents k) built.manifest.files[k]? := by
  have hview : (documentsAt built.documents k, built.manifest.files[k]?) = built.view k := rfl
  by_cases hown : ∃ vault ∈ config.vaults, ∃ path, k = sourceKey B.hash vault.id path
  · obtain ⟨vault, hvault, path, rfl⟩ := hown
    rw [(view_buildVaults h _).1 vault hvault path rfl] at hview
    obtain ⟨hdocuments, hrow⟩ := Prod.mk.inj hview
    rw [hdocuments, hrow]
    exact recorded_builtSource vault _ path
  · rw [(view_buildVaults h k).2] at hview
    · obtain ⟨hdocuments, hrow⟩ := Prod.mk.inj hview
      rw [hdocuments, hrow]
      rfl
    · intro vault hvault path hpath
      exact hown ⟨vault, hvault, path, hpath.symm⟩

lemma buildDesktopIndex_ok (h : buildDesktopIndex B config env = .ok generation) :
    ∃ built, buildVaults B config env.world = .ok built ∧
      generation.documents = built.documents ∧
      generation.manifest.files = built.manifest.files := by
  unfold buildDesktopIndex at h
  split at h
  · cases h
  have h := attempt_bind_ok (by simpa using h)
  obtain ⟨candidate, hcandidate, h⟩ := except_bind_ok h
  have h := attempt_bind_ok (attempt_bind_ok h)
  cases h
  unfold buildDesktopCandidate at hcandidate
  obtain ⟨built, hbuilt, h⟩ := except_bind_ok hcandidate
  obtain ⟨_, -, h⟩ := except_bind_ok (attempt_bind_ok (attempt_bind_ok h))
  obtain ⟨_, -, h⟩ := except_bind_ok (attempt_bind_ok h)
  cases h
  exact ⟨built, hbuilt, rfl, rfl⟩

/-! ## §3 Opening -/

lemma evictedKeys_eq_nil {manifest : Manifest}
    (h : ∀ (key : SourceKey) (row : ManifestFile), manifest.files[key]? = some row →
      row.identityMatches B = true) : manifest.evictedKeys B = [] := by
  rw [eq_nil_iff_forall_not_mem]
  intro key hmem
  obtain ⟨row, hget, hno⟩ := Manifest.mem_keysWhere.mp hmem
  simp [h key row hget] at hno

/-- Opening a generation whose rows all carry this build's identity serves its documents under its
rows. -/
theorem openManager_ok {residentDeletions : Bool}
    (hidentity : ∀ (key : SourceKey) (row : ManifestFile),
      generation.manifest.files[key]? = some row → row.identityMatches B = true)
    (h : DesktopIndexManager.openManager B config generation residentDeletions env = .ok manager) :
    manager.active.documents = generation.documents ∧
      manager.manifest.files = generation.manifest.files ∧
      manager.active.manifest = manager.manifest := by
  have hevicted := evictedKeys_eq_nil hidentity
  have hadopt : (generation.manifest.adopt B).files = generation.manifest.files := by
    simp [Manifest.adopt, hevicted]
  unfold DesktopIndexManager.openManager at h
  obtain ⟨_, -, h⟩ := except_bind_ok h
  obtain ⟨active, hactive, h⟩ := except_bind_ok h
  have h := attempt_bind_ok (attempt_bind_ok h)
  cases h
  simp only
  unfold repairedGeneration at hactive
  simp only [hevicted] at hactive
  cases residentDeletions with
  | false =>
    cases hactive
    exact ⟨rfl, hadopt, trivial⟩
  | true =>
    -- the repair republishes the same documents
    obtain ⟨documents, hdocuments, h⟩ := except_bind_ok
      (attempt_bind_ok (attempt_bind_ok (attempt_bind_ok hactive)))
    obtain ⟨_, -, h⟩ := except_bind_ok (attempt_bind_ok h)
    have h := attempt_bind_ok (attempt_bind_ok (attempt_bind_ok h))
    cases h
    refine ⟨?_, hadopt, trivial⟩
    simpa using applyIndexUpdates_eq hdocuments

/-! ## §4 A pass keeps the invariant -/

/-- A row found unchanged describes the text that was read. -/
theorem recorded_unchanged {key : SourceKey} {documents : List Document} {row next : ManifestFile}
    {file : DiscoveredFile} {bytes : Bytes} (hrecorded : Recorded B key documents (some row))
    (hkey : key = sourceKey B.hash vault.id file.relativePath)
    (hnext : RecordsIngest B vault file (.bytes bytes) none next)
    (hfp : row.registrationFingerprint = next.registrationFingerprint)
    (hhash : row.contentHash = next.contentHash) :
    ∃ stamp : DiscoveredFile, stamp.relativePath = file.relativePath ∧
      documents = (ingestFile B vault stamp (.bytes bytes)).documents B := by
  obtain ⟨vault', file', stamp, bytes', hkey', hrow, hstamp, hdocuments⟩ := hrecorded
  obtain ⟨hid, hroom, hpath, rfl⟩ := hrow.congr hnext (hkey'.symm.trans hkey) hfp hhash
  refine ⟨stamp, hstamp.trans hpath, ?_⟩
  rw [hdocuments, ingestFile_documents_restamp hid hroom rfl]
  exact (ingestFile_documents_restamp rfl rfl rfl).symm

variable {source : Option ManifestFile × List Document}

/-- A fate keeps a source recorded. -/
theorem recorded_leaves {context : VaultContext} {world : VaultWorld}
    {reads : DiscoveredFile → Bool} {path : Str}
    (hfingerprint : context.fingerprint = registrationFingerprint B.hash vault)
    (hresource : context.resource = none)
    (hrecorded : Recorded B (sourceKey B.hash vault.id path) source.2 source.1) :
    let left := (sourceFate B context vault world reads source.1 path).leaves B source
    Recorded B (sourceKey B.hash vault.id path) left.2 left.1 := by
  intro left
  rcases sourceFate_cases (B := B) world reads source.1 path hfingerprint with
    hfate | ⟨row, -, hfate⟩ | ⟨file, -, bytes, next, hpath, -, hnext, hfate⟩
  · rw [show left = source by simp [left, hfate, SourceFate.leaves]]
    exact hrecorded
  · rw [show left = (none, []) by simp [left, hfate, SourceFate.leaves]]
    rfl
  · rw [hresource] at hnext
    have hkey : sourceKey B.hash vault.id path = sourceKey B.hash vault.id file.relativePath := by
      rw [hpath]
    cases hplan : planSource B source.1 next .whole none with
    | reingest reason =>
      rw [show left = (some next, (ingestFile B vault file (.bytes bytes)).documents B) by
        simp [left, hfate, SourceFate.leaves, hplan]]
      exact ⟨vault, file, file, bytes, hkey, hnext, rfl, rfl⟩
    | unchanged =>
      rw [show left = (some next, source.2) by simp [left, hfate, SourceFate.leaves, hplan]]
      obtain ⟨row, hrow, -, hfp, -, -, hhash⟩ := planSource_unchanged_iff.mp hplan
      rw [hrow] at hrecorded
      obtain ⟨stamp, hstamp, hdocuments⟩ := recorded_unchanged hrecorded hkey hnext hfp hhash
      exact ⟨vault, file, stamp, bytes, hkey, hnext, hstamp, hdocuments⟩

/-- A successful pass keeps every key recorded. -/
theorem DesktopIndexManager.Recorded.reconcile {after : DesktopIndexManager}
    {scope : ReconcileScope} {report : ReconcileReport} (hrecorded : manager.Recorded B)
    (h : manager.reconcile B config scope env = (after, .ok report)) : after.Recorded B := by
  have hkeyed := hrecorded.keyed
  intro k
  have hbefore := hrecorded k
  change Kwiry.Recorded B k (after.source k).2 (after.source k).1
  by_cases hown : ∃ vault ∈ config.vaults, ∃ path, k = sourceKey B.hash vault.id path
  · obtain ⟨vault, hvault, path, rfl⟩ := hown
    cases hdir : (env.world.vault vault).isDir with
    | false =>
      rw [source_reconcile_unavailable hkeyed h hvault hdir]
      exact hbefore
    | true =>
      obtain ⟨audited, hsource⟩ := source_reconcile_available hkeyed h hvault hdir path
      rw [hsource]
      exact recorded_leaves rfl rfl hbefore
  · rw [source_reconcile_unregistered hkeyed h]
    · cases hget : manager.manifest.files[k]? with
      | none =>
        rw [hget] at hbefore
        exact hbefore
      | some row => rfl
    · intro vault hvault path hpath
      exact hown ⟨vault, hvault, path, hpath.symm⟩

/-- Opening a recorded generation leaves it recorded. -/
theorem recorded_openManager {residentDeletions : Bool}
    (hrecorded : ∀ key, Recorded B key (documentsAt generation.documents key) generation.manifest.files[key]?)
    (h : DesktopIndexManager.openManager B config generation residentDeletions env = .ok manager) :
    manager.Recorded B ∧ manager.active.manifest = manager.manifest := by
  obtain ⟨hdocuments, hfiles, hsame⟩ := openManager_ok (fun key row hget => by
    have hkey := hrecorded key
    rw [hget] at hkey
    obtain ⟨vault, file, stamp, bytes, -, hrow, -, -⟩ := hkey
    exact hrow.spec.identity) h
  refine ⟨fun key => ?_, hsame⟩
  rw [hdocuments, hfiles]
  exact hrecorded key

lemma recorded_buildDesktopIndex (h : buildDesktopIndex B config env = .ok generation)
    (key : SourceKey) :
    Recorded B key (documentsAt generation.documents key) generation.manifest.files[key]? := by
  obtain ⟨built, hbuilt, hdocuments, hfiles⟩ := buildDesktopIndex_ok h
  rw [hdocuments, hfiles]
  exact recorded_buildVaults hbuilt key

/-- **The run invariant**: along every run the documents of a source are those of the text its row
describes. -/
theorem recorded_of_run (h : DesktopRun B manager) : manager.Recorded B := by
  induction h with
  | opened hbuild hopen =>
    exact (recorded_openManager (recorded_buildDesktopIndex hbuild) hopen).1
  | pass hrun hpass ih => exact ih.reconcile hpass

/-! ## §5 Settled passes -/

variable (B) in
/-- A strict pass over available vaults, complete enumerations and readable files. -/
structure SettledPass (config : Config) (world : PassWorld) : Prop where
  strictHash : config.basis = .strictHash
  available : ∀ vault ∈ config.vaults, (world.vault vault).isDir = true
  complete : ∀ vault ∈ config.vaults, (world.vault vault).completeness = .complete
  readable : ∀ vault ∈ config.vaults, ∀ file ∈ (world.vault vault).files,
    (ingestFile B vault file ((world.vault vault).read file.relativePath)).kind ≠ .transientError

variable (B) in
/-- Every source the pass will find unchanged has documents with its modification second. -/
def StampsCurrent (manager : DesktopIndexManager) (config : Config) (world : PassWorld) : Prop :=
  ∀ vault ∈ config.vaults, ∀ file ∈ (world.vault vault).files, ∀ next,
    RecordsIngest B vault file ((world.vault vault).read file.relativePath) none next →
    planSource B manager.manifest.files[sourceKey B.hash vault.id file.relativePath]? next .whole
      none = .unchanged →
    ∀ document ∈ documentsAt manager.active.documents
      (sourceKey B.hash vault.id file.relativePath), document.mtime = file.mtime

lemma buildVaults_ok_of_available
    (h : ∀ vault ∈ config.vaults, (world.vault vault).isDir = true) :
    ∃ built, buildVaults B config world = .ok built :=
  foldlM_ok_of_forall _
    (fun state vault hvault => buildVault_ok_of_isDir (h vault hvault) state) _

/-- A strict pass reads every file. -/
theorem readsFile_of_strictHash {scope : ReconcileScope} {manifest : Manifest}
    {audited : Std.ExtTreeSet SourceKey} (h : config.basis = .strictHash) (file : DiscoveredFile) :
    readsFile B vault manifest (desktopContext B config scope world vault) audited file = true := by
  simp [readsFile, observeFile, planObservation, desktopContext, observationPolicy, h]

/-- **A settled pass at one source**: the row is the one a build records, and the documents are
those a build writes unless an unchanged source carries another second. -/
theorem settled_source {context : VaultContext} {world : VaultWorld} {reads : DiscoveredFile → Bool}
    {path : Str} (hfingerprint : context.fingerprint = registrationFingerprint B.hash vault)
    (hresource : context.resource = none)
    (hrecorded : Recorded B (sourceKey B.hash vault.id path) source.2 source.1)
    (hreads : ∀ file, reads file = true) (hcomplete : world.completeness = .complete)
    (hreadable : ∀ file ∈ world.files,
      (ingestFile B vault file (world.read file.relativePath)).kind ≠ .transientError) :
    let left := (sourceFate B context vault world reads source.1 path).leaves B source
    let built := builtSource B none vault world path
    left.1 = built.2 ∧ (left.2.Perm built.1 ↔
      ∀ file ∈ world.files, file.relativePath = path → ∀ next,
        RecordsIngest B vault file (world.read path) none next →
        planSource B source.1 next .whole none = .unchanged →
        ∀ document ∈ source.2, document.mtime = file.mtime) := by
  -- a source that is not recorded now leaves nothing, whatever was recorded before
  have hmissing : (missingFate world.completeness.mayInferDeletions source.1).leaves B source =
      (none, []) := by
    rw [hcomplete]
    obtain ⟨row, documents⟩ := source
    cases row with
    | none => exact congrArg (Prod.mk none) hrecorded
    | some row => rfl
  unfold sourceFate builtSource
  cases hfind : world.files.find? fun file => file.relativePath = path with
  | none =>
    simp only [hmissing, true_and, Perm.refl, true_iff]
    intro file hfile hpath
    exact absurd hpath (by simpa using find?_eq_none.mp hfind file hfile)
  | some file =>
    have hfile := mem_of_find?_eq_some hfind
    have hpath : file.relativePath = path := by simpa using find?_some hfind
    have honly : ∀ other ∈ world.files, other.relativePath = path → other = file :=
      fun other hother heq =>
        inj_on_of_nodup_map world.files_nodup hother hfile (heq.trans hpath.symm)
    have hkind := hreadable file hfile
    rw [hpath] at hkind
    simp only [hreads, Bool.not_true, Bool.false_eq_true, if_false, hkind, hfingerprint, hresource]
    cases hrow : ManifestFile.fromOutcome B (ingestFile B vault file (world.read path))
        (registrationFingerprint B.hash vault) none with
    | none =>
      simp only [hmissing, Option.map_none, true_and, documents_eq_nil_of_fromOutcome hrow,
        Perm.refl, true_iff]
      intro other hother heq next hnext
      rw [honly other hother heq, RecordsIngest, hrow] at hnext
      cases hnext
    | some entry =>
      obtain ⟨key, next⟩ := entry
      obtain ⟨hkey, hnext⟩ := fromOutcome_ingestFile hrow
      refine ⟨rfl, ?_⟩
      have hnextOnly : ∀ other ∈ world.files, other.relativePath = path → ∀ next',
          RecordsIngest B vault other (world.read path) none next' → next' = next := by
        intro other hother heq next' hnext'
        rw [honly other hother heq, RecordsIngest, hrow, Option.some.injEq, Prod.mk.injEq] at hnext'
        exact hnext'.2.symm
      simp only [SourceFate.leaves]
      cases hplan : planSource B source.1 next .whole none with
      | reingest reason =>
        simp only [FileIngestOutcome.plannedChunks_documents, Perm.refl, true_iff]
        intro other hother heq next' hnext' hunchanged
        rw [hnextOnly other hother heq next' hnext', hplan] at hunchanged
        cases hunchanged
      | unchanged =>
        obtain ⟨row, hprevious, -, hfp, -, -, hhash⟩ := planSource_unchanged_iff.mp hplan
        obtain ⟨bytes, hread, -, -⟩ := hnext.spec.contentHash
        rw [hread] at hnext ⊢
        rw [hprevious] at hrecorded
        obtain ⟨stamp, hstamp, hdocuments⟩ :=
          recorded_unchanged hrecorded (by rw [hpath]) hnext hfp hhash
        simp only [hdocuments, ingestFile_documents_perm_iff rfl rfl hstamp.symm]
        constructor
        · intro hmtime other hother heq _ _ _
          rw [honly other hother heq]
          exact hmtime
        · intro hall
          exact hall file hfile hpath next hnext hplan

/-- **Convergence.** After any run and a settled pass, the index holds the documents and the
    manifest the rows that a build of the same files would write, exactly when the stamps
    were current. -/
theorem reconcile_converges_iff {manager after : DesktopIndexManager} {config : Config}
    {scope : ReconcileScope} {env : PassEnv} {report : ReconcileReport}
    (hrun : DesktopRun B manager)
    (hpass : manager.reconcile B config scope env = (after, .ok report))
    (hsettled : SettledPass B config env.world) :
    ∃ built, buildVaults B config env.world = .ok built ∧
      ((after.active.documents.Perm built.documents ∧
          after.manifest.files = built.manifest.files) ↔
        StampsCurrent B manager config env.world) := by
  have hrecorded := recorded_of_run hrun
  obtain ⟨built, hbuilt⟩ := buildVaults_ok_of_available hsettled.available
  -- every registered source is as a build leaves it, up to its stamp
  have hsource : ∀ vault ∈ config.vaults, ∀ path,
      (after.source (sourceKey B.hash vault.id path)).1 =
        (built.view (sourceKey B.hash vault.id path)).2 ∧
      ((after.source (sourceKey B.hash vault.id path)).2.Perm
          (built.view (sourceKey B.hash vault.id path)).1 ↔
        ∀ file ∈ (env.world.vault vault).files, file.relativePath = path → ∀ next,
          RecordsIngest B vault file ((env.world.vault vault).read path) none next →
          planSource B manager.manifest.files[sourceKey B.hash vault.id path]? next .whole none =
            .unchanged →
          ∀ document ∈ documentsAt manager.active.documents (sourceKey B.hash vault.id path),
            document.mtime = file.mtime) := by
    intro vault hvault path
    obtain ⟨audited, hleft⟩ := DesktopIndexManager.source_reconcile_available hrecorded.keyed hpass
      hvault (hsettled.available vault hvault) path
    rw [hleft, (view_buildVaults hbuilt _).1 vault hvault path rfl]
    exact settled_source rfl rfl (hrecorded _) (readsFile_of_strictHash hsettled.strictHash)
      (hsettled.complete vault hvault) (hsettled.readable vault hvault)
  -- every other key is empty on both sides
  have hother : ∀ k, (∀ vault ∈ config.vaults, ∀ path, sourceKey B.hash vault.id path ≠ k) →
      after.source k = (none, []) ∧ built.view k = ([], none) := by
    intro k hne
    refine ⟨?_, (view_buildVaults hbuilt k).2 hne⟩
    rw [DesktopIndexManager.source_reconcile_unregistered hrecorded.keyed hpass hne]
    have hbefore := hrecorded k
    cases hget : manager.manifest.files[k]? with
    | none =>
      rw [hget] at hbefore
      exact congrArg (Prod.mk none) hbefore
    | some row => rfl
  have hown : ∀ k, (∃ vault ∈ config.vaults, ∃ path, k = sourceKey B.hash vault.id path) ∨
      ∀ vault ∈ config.vaults, ∀ path, sourceKey B.hash vault.id path ≠ k := by
    intro k
    by_cases h : ∃ vault ∈ config.vaults, ∃ path, k = sourceKey B.hash vault.id path
    · exact Or.inl h
    · exact Or.inr fun vault hvault path hpath => h ⟨vault, hvault, path, hpath.symm⟩
  refine ⟨built, hbuilt, ?_⟩
  constructor
  · rintro ⟨hperm, -⟩ vault hvault file hfile next hnext hunchanged
    exact (hsource vault hvault file.relativePath).2.mp (hperm.filter _) file hfile rfl next hnext
      hunchanged
  · intro hstamps
    constructor
    · refine perm_of_documentsAt_eq fun k => ?_
      rcases hown k with ⟨vault, hvault, path, rfl⟩ | hne
      · refine (hsource vault hvault path).2.mpr ?_
        rintro file hfile rfl next hnext hunchanged
        exact hstamps vault hvault file hfile next hnext hunchanged
      · obtain ⟨hafter, hview⟩ := hother k hne
        rw [show documentsAt after.active.documents k = [] from congrArg Prod.snd hafter,
          show documentsAt built.documents k = [] from congrArg Prod.fst hview]
    · ext k : 1
      rcases hown k with ⟨vault, hvault, path, rfl⟩ | hne
      · exact (hsource vault hvault path).1
      · obtain ⟨hafter, hview⟩ := hother k hne
        exact (congrArg Prod.fst hafter).trans (congrArg Prod.snd hview).symm

/-! ## §6 A touched note -/

/-- The value of a computation that succeeds. -/
def Except.value {α : Type} (x : Except Error α) (h : x.toOption.isSome = true) : α :=
  x.toOption.get h

lemma Except.eq_ok_value {α : Type} {x : Except Error α} (h : x.toOption.isSome = true) :
    x = .ok (Except.value x h) := by
  cases x with
  | error e => cases h
  | ok a => rfl

lemma noteVault_fits : utf8Len ['v'] < 2 ^ 63 := by decide

lemma notePath_fits : utf8Len ['a', '.', 'm', 'd'] < 2 ^ 63 := by decide

lemma notePath_registered :
    SourceFormat.fromPath ['a', '.', 'm', 'd'] = some .markdown := by decide

def noteVault : VaultRegistration := ⟨⟨['v'], noteVault_fits⟩, ⟨['/', 'v'], by decide⟩, none⟩

def noteConfig : Config where
  tenantId := none
  basis := .strictHash
  auditSourcesPerPass := 0
  auditBytesPerPass := 0
  racyWindowMillis := 0
  vaults := [noteVault]
  vaults_nodup := by simp

/-- One vault with the note `a.md`, whose text is `x`, modified at the given second. -/
def noteWorld (mtime : ℕ) : PassWorld where
  vault _ :=
    { isDir := true
      files := [⟨['/', 'v', '/', 'a', '.', 'm', 'd'], ⟨['a', '.', 'm', 'd'], notePath_fits⟩, .markdown,
        1, mtime * nanosPerSecond, notePath_registered⟩]
      warnings := []
      read _ := .bytes [120]
      files_nodup := by simp }
  nowNanos := 0
  semanticHash := none

def noteEnv (mtime : ℕ) : PassEnv := ⟨noteWorld mtime, fun _ => none, "", ['g']⟩

def noteGeneration : DesktopGeneration :=
  Except.value (buildDesktopIndex Build.plain noteConfig (noteEnv 0)) (by decide +kernel)

def noteManager : DesktopIndexManager :=
  Except.value (DesktopIndexManager.openManager Build.plain noteConfig noteGeneration false
    (noteEnv 0)) (by decide +kernel)

/-- The pass after the note was touched: the same text, one second later. -/
def touchedPass : DesktopIndexManager × Except Error ReconcileReport :=
  noteManager.reconcile Build.plain noteConfig .full (noteEnv 1)

lemma touchedPass_ok : touchedPass.2.toOption.isSome = true := by decide +kernel

lemma noteManager_run : DesktopRun Build.plain noteManager := by
  have hbuild : buildDesktopIndex Build.plain noteConfig (noteEnv 0) = .ok noteGeneration :=
    Except.eq_ok_value _
  exact .opened hbuild (Except.eq_ok_value _)

lemma noteWorld_settled (mtime : ℕ) : SettledPass Build.plain noteConfig (noteWorld mtime) where
  strictHash := rfl
  available _ _ := rfl
  complete _ _ := rfl
  readable vault hvault file hfile := by
    intro hkind
    rcases ((ingestFile_spec Build.plain vault file _).transient.mp hkind) with h | h <;> cases h

lemma touchedPass_eq : noteManager.reconcile Build.plain noteConfig .full (noteEnv 1) =
    (touchedPass.1, .ok (Except.value touchedPass.2 touchedPass_ok)) := by
  rw [← Except.eq_ok_value touchedPass_ok, Prod.mk.eta, touchedPass]

/-- What a build of the touched note writes. -/
def touchedBuilt : BuildState :=
  Except.value (buildVaults Build.plain noteConfig (noteWorld 1)) (by decide +kernel)

/-- The general result at the touched note. -/
theorem touchedPass_converges_iff :
    SettledPass Build.plain noteConfig (noteWorld 1) ∧
    ∃ built, buildVaults Build.plain noteConfig (noteWorld 1) = .ok built ∧
      ((touchedPass.1.active.documents.Perm built.documents ∧
          touchedPass.1.manifest.files = built.manifest.files) ↔
        StampsCurrent Build.plain noteManager noteConfig (noteWorld 1)) :=
  ⟨noteWorld_settled 1,
    reconcile_converges_iff noteManager_run touchedPass_eq (noteWorld_settled 1)⟩

/-- Touching a note without changing it leaves its documents at the old second, so the run
    does not end where a build would. -/
theorem touchedPass_not_converged :
    ¬ ∀ (manager after : DesktopIndexManager) (config : Config) (scope : ReconcileScope)
      (env : PassEnv) (report : ReconcileReport) (built : BuildState),
      DesktopRun Build.plain manager →
      manager.reconcile Build.plain config scope env = (after, .ok report) →
      SettledPass Build.plain config env.world →
      buildVaults Build.plain config env.world = .ok built →
      after.active.documents.Perm built.documents ∧
        after.manifest.files = built.manifest.files := by
  intro hclaim
  have hperm := (hclaim noteManager _ noteConfig .full (noteEnv 1) _ touchedBuilt noteManager_run
    touchedPass_eq (noteWorld_settled 1) (Except.eq_ok_value _)).1
  have hafter : touchedPass.1.active.documents.map Document.mtime = [0] := by decide +kernel
  have hbuilt : touchedBuilt.documents.map Document.mtime = [1] := by decide +kernel
  have hmtimes := hperm.map Document.mtime
  rw [hafter, hbuilt] at hmtimes
  exact absurd hmtimes (by decide)

end Kwiry
