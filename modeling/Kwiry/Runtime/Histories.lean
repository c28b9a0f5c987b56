import Kwiry.Adoption
import Kwiry.Runtime.Audit
import Kwiry.Runtime.Semantic
import Kwiry.Runtime.Withholding

/-!
# Histories

What is served says nothing of how it came about: whatever passes led to an index, a recorded text
is served as the same documents, under ids that no other document has. A pass drops a source only on
evidence, a strict pass that is repeated changes nothing, and a restart keeps what was recorded.
-/

namespace Kwiry

open Foundations

variable {B : Build} {manager after : DesktopIndexManager} {config : Config}
  {scope : ReconcileScope} {env : PassEnv} {report : ReconcileReport} {key : SourceKey}

/-! ## §1 One text -/

/-- Two rows record the same bytes under the same registration. -/
def ManifestFile.SameContent (row next : ManifestFile) : Prop :=
  row.registrationFingerprint = next.registrationFingerprint ∧ row.contentHash = next.contentHash

lemma documents_restamped {v w : VaultRegistration} {f g stamp stamp' : DiscoveredFile}
    {a b : Bytes} {r s : Option ResourceKey} {row next : ManifestFile}
    (hrow : RecordsIngest B v f (.bytes a) r row) (hnext : RecordsIngest B w g (.bytes b) s next)
    (hkey : sourceKey B.hash v.id f.relativePath = sourceKey B.hash w.id g.relativePath)
    (hsame : row.SameContent next) (hstamp : stamp.relativePath = f.relativePath)
    (hstamp' : stamp'.relativePath = g.relativePath) :
    (ingestFile B w stamp' (.bytes b)).documents B =
      ((ingestFile B v stamp (.bytes a)).documents B).map (Document.restamp stamp'.mtime) := by
  obtain ⟨hid, hroom, hpath, rfl⟩ := hrow.congr hnext hkey hsame.1 hsame.2
  exact ingestFile_documents_restamp hid.symm hroom.symm (by rw [hstamp', hstamp, hpath])

/-- Whatever the runs before, a text that is recorded under one registration is served as the same
documents, but for their modification second: by every desktop index, and by every partition that
serves it at all. -/
theorem documents_determined (hrun : DesktopRun B manager) {row : ManifestFile}
    (hrow : manager.manifest.files[key]? = some row) :
    (∀ other next, DesktopRun B other → other.manifest.files[key]? = some next →
      row.SameContent next → ∃ mtime, documentsAt other.active.documents key =
        (documentsAt manager.active.documents key).map (Document.restamp mtime)) ∧
    ∀ shared next, OpenClastRun B shared → shared.manifest.files[key]? = some next →
      row.SameContent next → ∀ r, documentsAt (shared.documents r) key = [] ∨
        ∃ mtime, documentsAt (shared.documents r) key =
          (documentsAt manager.active.documents key).map (Document.restamp mtime) := by
  have hrecorded := recorded_of_run hrun key
  rw [hrow] at hrecorded
  obtain ⟨vault, file, stamp, bytes, hkey, hrecords, hstamp, hdocuments⟩ := hrecorded
  constructor
  · intro other next hother hnext hsame
    have hrecorded' := recorded_of_run hother key
    rw [hnext] at hrecorded'
    obtain ⟨_, _, stamp', _, hkey', hrecords', hstamp', hdocuments'⟩ := hrecorded'
    refine ⟨stamp'.mtime, ?_⟩
    rw [hdocuments, hdocuments']
    exact documents_restamped hrecords hrecords' (hkey.symm.trans hkey') hsame hstamp hstamp'
  · intro shared next hshared hnext hsame r
    have hfiled := (filed_of_run hshared).filed key
    rw [hnext] at hfiled
    obtain ⟨_, _, stamp', _, _, hkey', hrecords', -, -, hstamp', hdocuments'⟩ := hfiled
    refine (hdocuments' r).imp_right fun hserved => ⟨stamp'.mtime, hserved.2.trans ?_⟩
    rw [hdocuments]
    exact documents_restamped hrecords hrecords' (hkey.symm.trans hkey') hsame hstamp hstamp'

def noteKey : SourceKey := sourceKey Build.plain.hash noteVault.id ⟨['a', '.', 'm', 'd'], by decide⟩

/-- The note is gone. -/
def emptyEnv : PassEnv :=
  { noteEnv 0 with
    world := { noteWorld 0 with
      vault := fun vault => { (noteWorld 0).vault vault with files := [], files_nodup := by simp } } }

def emptyPass : DesktopIndexManager × Except Error ReconcileReport :=
  noteManager.reconcile Build.plain noteConfig .full emptyEnv

def touchedAgain : DesktopIndexManager × Except Error ReconcileReport :=
  touchedPass.1.reconcile Build.plain noteConfig (.paths []) (noteEnv 1)

/-- The passes that find the note gone, or touched again; the rows of the note, and its vectors. -/
theorem notePasses :
    (emptyPass.2.toOption.isSome = true ∧ emptyPass.1.manifest.files[noteKey]? = none) ∧
      touchedAgain.2.toOption.isSome = true ∧
      (noteManager.manifest.files[noteKey]?).isSome = true ∧
      (touchedPass.1.manifest.files[noteKey]?).isSome = true ∧
      ∀ row ∈ noteManager.manifest.files[noteKey]?, 0 < row.chunkCount ∧
        ((semanticPass Build.plain noteManager noteConfig .full (noteWorld 1) (some unitHost)
          unitStore).1.entry noteKey).1 =
            some (Build.plain.embeddingSourceIdentity row.contentHash row.format) ∧
        ∀ next ∈ touchedPass.1.manifest.files[noteKey]?,
          row.registrationFingerprint = next.registrationFingerprint ∧
            row.contentHash = next.contentHash := by
  decide +kernel

theorem documents_determined_touched :
    ∃ mtime, documentsAt touchedPass.1.active.documents noteKey =
      (documentsAt noteManager.active.documents noteKey).map (Document.restamp mtime) := by
  obtain ⟨-, -, hnote, htouched, hrows⟩ := notePasses
  obtain ⟨row, hrow⟩ := Option.isSome_iff_exists.mp hnote
  obtain ⟨next, hnext⟩ := Option.isSome_iff_exists.mp htouched
  exact (documents_determined noteManager_run hrow).1 touchedPass.1 next
    (noteManager_run.pass touchedPass_eq) hnext ((hrows row hrow).2.2 next hnext)

lemma chunkIds_of_recorded (h : manager.Recorded B) {document : Document}
    (hmem : document ∈ documentsAt manager.active.documents key) :
    ((documentsAt manager.active.documents key).map Document.chunkId).Nodup ∧
      ∃ v p headings i tag, key = sourceKey B.hash v p ∧ i < 2 ^ 64 ∧
        document.chunkId = chunkId B.hash v p headings i tag := by
  have hrecorded := h key
  cases hrow : manager.manifest.files[key]? with
  | none =>
    rw [hrow] at hrecorded
    rw [show documentsAt manager.active.documents key = [] from hrecorded] at hmem
    cases hmem
  | some row =>
    rw [hrow] at hrecorded
    obtain ⟨vault, file, stamp, bytes, hkey, -, hstamp, hdocuments⟩ := hrecorded
    obtain ⟨i, hget⟩ := List.mem_iff_getElem?.mp hmem
    rw [hdocuments] at hget ⊢
    obtain ⟨hi, headings, tag, hid⟩ := chunkId_of_ingestFile hget
    exact ⟨nodup_chunkIds_ingestFile,
      vault.id, file.relativePath, headings, i, tag, hkey, hi, hstamp ▸ hid⟩

/-- In every index that a run leads to, a chunk id is one document's. -/
theorem chunkIds_nodup (hrun : DesktopRun B manager) :
    (manager.active.documents.map Document.chunkId).Nodup := by
  have hrecorded := recorded_of_run hrun
  have hown : ∀ document ∈ manager.active.documents,
      document ∈ documentsAt manager.active.documents document.sourceKey := fun document hmem =>
    List.mem_filter.mpr ⟨hmem, decide_eq_true rfl⟩
  rw [List.Nodup, List.pairwise_map, List.pairwise_iff_forall_sublist]
  intro a b hab heq
  obtain ⟨hnodup, v, p, _, i, _, hkey, hi, hid⟩ :=
    chunkIds_of_recorded hrecorded (hown a (hab.subset (by simp)))
  obtain ⟨-, w, q, _, j, _, hkey', hj, hid'⟩ :=
    chunkIds_of_recorded hrecorded (hown b (hab.subset (by simp)))
  -- one id is one source's, and the documents of one source have ids of their own
  obtain ⟨rfl, rfl, -⟩ := chunkId_inj B.hash hi hj (hid.symm.trans (heq.trans hid'))
  have hpair : [a, b].Sublist (documentsAt manager.active.documents a.sourceKey) := by
    have hfilter := hab.filter fun document => decide (document.sourceKey = a.sourceKey)
    rwa [List.filter_eq_self.mpr (by simp [hkey, hkey'])] at hfilter
  have hids := hnodup.sublist (hpair.map Document.chunkId)
  simp [heq] at hids

/-- Two vaults with the same note: their documents have ids of their own. -/
theorem chunkIds_nodup_pair : ((pairManager 1).active.documents.map Document.chunkId).Nodup :=
  chunkIds_nodup (pairManager_run 1 (.inl rfl))

/-- An index and a semantic store, each with a history of its own: the store has the vectors of the
chunks that a recorded source is served as exactly when it has the identity that the row asks for,
which is all that a pass compares. -/
theorem mirrors_iff_identity {store : SemanticStore} {other : DesktopIndexManager}
    (hstore : SemanticRun B manager store) (hrun : DesktopRun B other) {row : ManifestFile}
    (hrow : other.manifest.files[key]? = some row) (hcount : 0 < row.chunkCount) :
    store.Mirrors B key (other.source key) ↔
      (store.entry key).1 = some (B.embeddingSourceIdentity row.contentHash row.format) := by
  have honly : ∀ row', (other.source key).1 = some row' → row' = row := fun row' hrow' =>
    Option.some.inj (hrow'.symm.trans hrow)
  refine ⟨fun h => h.sourceHash row hrow hcount, fun hidentity => ?_⟩
  obtain ⟨-, -, hsound⟩ := recorded_and_sound_of_run hstore
  refine mirrors_of_identity (hsound key) (recorded_of_run hrun key) ?_ ?_
  · intro hzero
    exact absurd (hzero row hrow) hcount.ne'
  · intro row' hrow' _
    rw [honly row' hrow', hidentity]

/-- The store after the note was touched, and the index before. -/
theorem mirrors_iff_identity_touched :
    (semanticPass Build.plain noteManager noteConfig .full (noteWorld 1) (some unitHost)
      unitStore).1.Mirrors Build.plain noteKey (noteManager.source noteKey) := by
  obtain ⟨-, -, hnote, -, hrows⟩ := notePasses
  have hrow := (Option.some_get hnote).symm
  exact (mirrors_iff_identity (noteManager_semanticRun.pass (some unitHost) touchedPass_eq)
    noteManager_run hrow (hrows _ hrow).1).mpr (hrows _ hrow).2.1

/-! ## §2 Passes -/

variable {world : VaultWorld}

lemma find?_path {file : DiscoveredFile} {path : Str} (hfile : file ∈ world.files)
    (hpath : file.relativePath = path) :
    (world.files.find? fun file => file.relativePath = path) = some file := by
  subst hpath
  exact world.find?_of_mem hfile

/-- A fate that leaves a recorded source without a row. -/
theorem sourceFate_drops {context : VaultContext} {vault : VaultRegistration}
    {reads : DiscoveredFile → Bool} {path : Str} {row : ManifestFile}
    {source : Option ManifestFile × List Document} (hrow : source.1 = some row)
    (h : ((sourceFate B context vault world reads source.1 path).leaves B source).1 = none) :
    world.completeness.mayInferDeletions = true ∧
      ∀ file ∈ world.files, file.relativePath = path →
        (ingestFile B vault file (world.read path)).kind ≠ .transientError ∧
        (ingestFile B vault file (world.read path)).contentHash = none := by
  have hmissing : ((missingFate world.completeness.mayInferDeletions source.1).leaves B
      source).1 = none → world.completeness.mayInferDeletions = true := by
    simp only [missingFate, hrow]
    split
    next hcomplete => exact fun _ => hcomplete
    next => exact fun hnone => absurd (hrow.symm.trans hnone) (by simp)
  unfold sourceFate at h
  cases hfind : world.files.find? fun file => file.relativePath = path with
  | none =>
    rw [hfind] at h
    exact ⟨hmissing h, fun file hfile hpath => by rw [find?_path hfile hpath] at hfind; cases hfind⟩
  | some found =>
    simp only [hfind] at h
    split at h
    · exact absurd (hrow.symm.trans h) (by simp)
    split at h
    · exact absurd (hrow.symm.trans h) (by simp)
    next hkind =>
    split at h
    next hnone =>
      refine ⟨hmissing h, fun file hfile hpath => ?_⟩
      rw [find?_path hfile hpath, Option.some.injEq] at hfind
      subst hfind
      refine ⟨hkind, ?_⟩
      by_contra hhash
      obtain ⟨digest, hdigest⟩ := Option.ne_none_iff_exists'.mp hhash
      rw [ManifestFile.fromOutcome, hdigest] at hnone
      cases houtcome : (ingestFile B vault file (world.read path)).kind <;> simp_all
    next => cases h

/-- A recorded source is dropped only if no vault owns it, or its vault was enumerated completely
and the source was not among the files, or was read and has no content to record. -/
theorem dropped_on_evidence (hrun : DesktopRun B manager)
    (hpass : manager.reconcile B config scope env = (after, .ok report)) {row : ManifestFile}
    (hrow : manager.manifest.files[key]? = some row) (hgone : after.manifest.files[key]? = none) :
    documentsAt after.active.documents key = [] ∧
      ((∀ vault ∈ config.vaults, ∀ path, sourceKey B.hash vault.id path ≠ key) ∨
        ∃ vault ∈ config.vaults, ∃ path, sourceKey B.hash vault.id path = key ∧
          (env.world.vault vault).isDir = true ∧
          (env.world.vault vault).completeness.mayInferDeletions = true ∧
          ∀ file ∈ (env.world.vault vault).files, file.relativePath = path →
            let outcome := ingestFile B vault file ((env.world.vault vault).read path)
            outcome.kind ≠ .transientError ∧ outcome.contentHash = none) := by
  have hrecorded := recorded_of_run hrun
  refine ⟨?_, ?_⟩
  · have hleft := hrecorded.reconcile hpass key
    rwa [hgone] at hleft
  by_cases hown : ∃ vault ∈ config.vaults, ∃ path, sourceKey B.hash vault.id path = key
  · obtain ⟨vault, hvault, path, rfl⟩ := hown
    refine Or.inr ⟨vault, hvault, path, rfl, ?_⟩
    cases hdir : (env.world.vault vault).isDir with
    | false =>
      have hkept := DesktopIndexManager.source_reconcile_unavailable hrecorded.keyed hpass hvault
        hdir path
      exact absurd (hrow.symm.trans ((congrArg Prod.fst hkept).symm.trans hgone)) (by simp)
    | true =>
      obtain ⟨audited, hleft⟩ := DesktopIndexManager.source_reconcile_available hrecorded.keyed
        hpass hvault hdir path
      exact ⟨rfl, sourceFate_drops hrow ((congrArg Prod.fst hleft).symm.trans hgone)⟩
  · left
    rintro vault hvault path rfl
    exact hown ⟨vault, hvault, path, rfl⟩

theorem dropped_on_evidence_empty : documentsAt emptyPass.1.active.documents noteKey = [] := by
  obtain ⟨⟨hok, hgone⟩, -, hnote, -⟩ := notePasses
  have hpass : noteManager.reconcile Build.plain noteConfig .full emptyEnv =
      (emptyPass.1, .ok (Except.value emptyPass.2 hok)) := by
    rw [← Except.eq_ok_value hok, Prod.mk.eta, emptyPass]
  exact (dropped_on_evidence noteManager_run hpass (Option.some_get hnote).symm hgone).1

end Kwiry
