import Kwiry.Runtime.Withholding

/-!
# Metadata Reuse and Strict Hashing Agree

A pass under the metadata basis leaves the sources it reuses unread. Reading one of them, with
the bytes its row was written from, records the row it already has and plans nothing: the two
bases plan the same rows, deletions and additions at every key, whichever sources the audit
picks.

The comparison is of two runs of the same loops. `vaultEffect` is what a vault's loops do to
the view of a key, for any manifest and any choice of files to read; two choices have the same
effect when they differ on sources whose reading changes nothing. A read that fails retains its
source under one basis only, so the plans are kept `Alike` rather than equal.
-/

namespace Kwiry

open Foundations List Option

/-! ## §1 Reading a reused source -/

variable {row : ManifestFile} {view : KeyView} {k : SourceKey}

section Reused

variable {B : Build} {manifest : Manifest} {context : VaultContext} {vault : VaultRegistration}
  {world : VaultWorld}

/-- Every source whose metadata is reused still has the bytes its row was recorded from, by the same
kind of manager, or cannot be read now. -/
def FaithfulReuse (B : Build) (manifest : Manifest) (context : VaultContext)
    (vault : VaultRegistration) (world : VaultWorld) : Prop :=
  ∀ file ∈ world.files, observeFile B vault manifest context file = .reuseMetadata →
    ∃ row recordedVault recordedFile bytes resource,
      manifest.files[sourceKey B.hash vault.id file.relativePath]? = some row ∧
      sourceKey B.hash recordedVault.id recordedFile.relativePath =
        sourceKey B.hash vault.id file.relativePath ∧
      RecordsIngest B recordedVault recordedFile (.bytes bytes) resource row ∧
      resource.isSome = context.resource.isSome ∧
      (world.read file.relativePath = .bytes bytes ∨
        world.read file.relativePath = .unavailable ∨ world.read file.relativePath = .stale)

/-- What a row agrees on whose metadata is reused. -/
theorem agrees_of_reuse {file : DiscoveredFile}
    (hprev : manifest.files[sourceKey B.hash vault.id file.relativePath]? = some row)
    (h : observeFile B vault manifest context file = .reuseMetadata) :
    context.previousScopeOf row = context.scope ∧
      row.registrationFingerprint = context.fingerprint ∧
      row.identityMatches B = true ∧ row.mtimeNanos = file.mtimeNanos := by
  unfold observeFile planObservation at h
  simp only [hprev, map_some, any_some] at h
  split_ifs at h with hbasis hscope hfp hidentity hsize hmtime hforced hbackfill hracy
  exact ⟨by simpa using hscope, by simpa using hfp, by simpa using hidentity, by simpa using hmtime⟩

/-- An ingest does not look at where the file stands, nor at the registration's path. -/
theorem recordsIngest_congr {v w : VaultRegistration} {f g : DiscoveredFile} {bytes : Bytes}
    {resource : Option ResourceKey} (hid : v.id = w.id) (hroom : v.room = w.room)
    (hpath : f.relativePath = g.relativePath) (hmtime : f.mtimeNanos = g.mtimeNanos)
    (hfp : registrationFingerprint B.hash v = registrationFingerprint B.hash w)
    (h : RecordsIngest B v f (.bytes bytes) resource row) :
    RecordsIngest B w g (.bytes bytes) resource row := by
  have hformat : f.format = g.format := by
    have hf := f.registered
    rw [hpath, g.registered] at hf
    exact (some.inj hf).symm
  have hdescriptor : sourceDescriptor v f bytes.length = sourceDescriptor w g bytes.length := by
    simp only [sourceDescriptor, DiscoveredFile.mtime, hid, hroom, hpath, hformat, hmtime]
  unfold RecordsIngest at h ⊢
  rw [← hid, ← hpath, ← hfp, ← h]
  simp only [ingestFile, ← hdescriptor]
  cases prepareSourceBuffer B (sourceDescriptor v f bytes.length) bytes with
  | error e => simp [ManifestFile.fromOutcome, fileOutcome]
  | ok preparation =>
    simp only [fileOutcomeFromPreparation]
    cases preparation.ensureCurrentPolicy B with
    | error e => simp [ManifestFile.fromOutcome, preparedOutcome]
    | ok u => simp [ManifestFile.fromOutcome, preparedOutcome, Function.comp_def]

section

variable (hfaithful : FaithfulReuse B manifest context vault world)
  (hfingerprint : context.fingerprint = registrationFingerprint B.hash vault)
  (hroom : vault.room ≠ some Str.empty)

include hfaithful hfingerprint hroom

/-- Reading a reused source records the row it has and plans nothing. -/
theorem fileEffect_of_reuse {file : DiscoveredFile} (hfile : file ∈ world.files)
    (hreuse : observeFile B vault manifest context file = .reuseMetadata)
    (hview : ∀ row, manifest.files[sourceKey B.hash vault.id file.relativePath]? = some row →
      row.vaultId = vault.id → view.row = some row) :
    fileEffect B manifest context vault world file (view, false) = (view, true) := by
  obtain ⟨row, recordedVault, recordedFile, bytes, resource, hprev, hkey, hrecords, hmanager,
    hread⟩ := hfaithful file hfile hreuse
  obtain ⟨hscope, hfp, hidentity, hmtime⟩ := agrees_of_reuse hprev hreuse
  have hspec := hrecords.spec
  obtain ⟨hid, hpath⟩ := sourceKey_inj B.hash hkey
  have hrow := hview row hprev (hspec.vaultId.trans hid)
  have hsame : registrationFingerprint B.hash recordedVault =
      registrationFingerprint B.hash vault := by
    rw [← hspec.fingerprint, hfp, hfingerprint]
  rcases hread with hbytes | hfailed
  swap
  · -- the read fails, and the row is retained
    have hkind := (ingestFile_spec B vault file (world.read file.relativePath)).transient.mpr hfailed
    simp only [fileEffect, hkind, if_true, hprev, KeyView.setRow_eq_self hrow]
  have hresource : resource = context.resource := by
    cases hcontext : context.resource with
    | none => simpa [hcontext] using hmanager
    | some current =>
      obtain ⟨r, rfl⟩ := isSome_iff_exists.mp (by rw [hmanager, hcontext]; rfl)
      have hcurrent : r = current := by
        simpa [VaultContext.previousScopeOf, VaultContext.scope, hcontext, hspec.resource] using
          hscope
      rw [hcurrent]
  have hroomEq : recordedVault.room = vault.room := by
    obtain ⟨_, hbytes', -, hvalid⟩ := hspec.contentHash
    obtain ⟨-, -, hroom'⟩ := registrationFingerprint_inj B.hash hsame
    have hne := room_ne_empty hvalid
    change recordedVault.room ≠ some Str.empty at hne
    cases hrecorded : recordedVault.room with
    | none =>
      cases hnow : vault.room with
      | none => rfl
      | some room =>
        rw [hrecorded, hnow] at hroom'
        exact absurd (hnow.trans (congrArg some hroom'.symm)) hroom
    | some room =>
      cases hnow : vault.room with
      | none =>
        rw [hrecorded, hnow] at hroom'
        exact absurd (hrecorded.trans (congrArg some hroom')) hne
      | some room' =>
        rw [hrecorded, hnow] at hroom'
        exact congrArg some hroom'
  have hagain : RecordsIngest B vault file (.bytes bytes) context.resource row := by
    rw [← hresource]
    exact recordsIngest_congr hid hroomEq hpath (hspec.mtimeNanos.symm.trans hmtime) hsame hrecords
  have hkind : (ingestFile B vault file (world.read file.relativePath)).kind ≠ .transientError := by
    rw [hbytes]
    intro h
    rcases (ingestFile_spec B vault file (.bytes bytes)).transient.mp h with h | h <;> cases h
  have hunchanged : planSource B (some row) row context.scope
      (context.reconcileScope (some row)) = .unchanged := by
    refine planSource_unchanged_iff.mpr ⟨row, rfl, ?_, rfl, hidentity, rfl, rfl⟩
    unfold VaultContext.reconcileScope
    split
    · rfl
    · simp [hscope]
  unfold RecordsIngest at hagain
  rw [← hbytes, ← hfingerprint] at hagain
  simp only [fileEffect, if_neg hkind, hagain, hprev, KeyView.reconcile, hunchanged,
    KeyView.setRow_eq_self hrow]

/-- Two choices of files that leave only reusable sources unread have the same effect. -/
theorem vaultEffect_agrees {reads reads' : DiscoveredFile → Bool}
    (hreads : ∀ file ∈ world.files, reads file = true ∨
      observeFile B vault manifest context file = .reuseMetadata)
    (hreads' : ∀ file ∈ world.files, reads' file = true ∨
      observeFile B vault manifest context file = .reuseMetadata)
    (hview : ∀ path row, sourceKey B.hash vault.id path = k → manifest.files[k]? = some row →
      row.vaultId = vault.id → view.row = some row) :
    vaultEffect B manifest context vault world reads k view =
      vaultEffect B manifest context vault world reads' k view := by
  have hloop : ∀ file, vaultFile B vault world k = some file →
      (if reads file then fileEffect B manifest context vault world file (view, false)
        else (view, true)) =
      if reads' file then fileEffect B manifest context vault world file (view, false)
        else (view, true) := by
    intro file hfind
    obtain ⟨hmem, hkey⟩ := vaultFile_eq_some.mp hfind
    have hsame : observeFile B vault manifest context file = .reuseMetadata →
        fileEffect B manifest context vault world file (view, false) = (view, true) :=
      fun hreuse => fileEffect_of_reuse hfaithful hfingerprint hroom hmem hreuse
        fun row hprev hid => hview file.relativePath row hkey (hkey ▸ hprev) hid
    rcases hreads file hmem with hread | hreuse
    · rcases hreads' file hmem with hread' | hreuse
      · rw [hread, hread']
      · rw [hsame hreuse, ite_self, ite_self]
    · rw [hsame hreuse, ite_self, ite_self]
  unfold vaultEffect
  cases hfind : vaultFile B vault world k with
  | none => rfl
  | some file =>
    simp only
    rw [hloop file hfind]

end

end Reused

/-! ## §2 Plans of a pass under two bases -/

/-- A configuration under another freshness basis. -/
def Config.withBasis (config : Config) (basis : IndexFreshnessBasis) : Config :=
  { config with basis := basis }

/-- Two plans record the same rows and make the same index changes, by source key. -/
structure SamePlan (B : Build) (plan plan' : ReconcilePlan) : Prop where
  rows : plan.nextManifest.files = plan'.nextManifest.files
  deletes : ∀ scope, plan.deletesAt scope = plan'.deletesAt scope
  additions : ∀ scope key,
    ((plan.additionsAt scope).filter fun planned => planned.sourceKey B = key) =
      (plan'.additionsAt scope).filter fun planned => planned.sourceKey B = key

variable {plan' : ReconcilePlan}

lemma SamePlan.of_view {B : Build} {plan : ReconcilePlan}
    (h : ∀ k, plan.view B k = plan'.view B k) : SamePlan B plan plan' where
  rows := by
    ext k : 1
    exact congrArg KeyView.row (h k)
  deletes scope := by
    ext k
    have hk := congrFun (congrArg KeyView.deleted (h k)) scope
    change (plan.deletesAt scope).contains k = (plan'.deletesAt scope).contains k at hk
    rw [← Std.ExtTreeSet.contains_iff_mem, ← Std.ExtTreeSet.contains_iff_mem, hk]
  additions scope key := congrFun (congrArg KeyView.added (h key)) scope

section Passes

variable {B : Build} {manifest : Manifest}

/-- Rows under keys of their own vault, for the vaults still to come, are as recorded. -/
private def Untouched (B : Build) (manifest : Manifest) (vaults : List VaultRegistration)
    (plan : ReconcilePlan) : Prop :=
  ∀ vault ∈ vaults, ∀ path row, manifest.files[sourceKey B.hash vault.id path]? = some row →
    row.vaultId = vault.id → (plan.view B (sourceKey B.hash vault.id path)).row = some row

/-- A recorded key that stands in the next manifest for good: no vault still to come owns it. -/
private def Settled (manifest : Manifest) (vaults : List VaultRegistration) (plan : ReconcilePlan)
    (k : SourceKey) : Prop :=
  k ∈ plan.nextManifest.files ∧
    ∃ row, manifest.files[k]? = some row ∧ ∀ vault ∈ vaults, row.vaultId ≠ vault.id

/-- Two plans before the vaults still to come: alike, and what only one retains is settled. -/
private structure Alike (B : Build) (manifest : Manifest) (vaults : List VaultRegistration)
    (plan plan' : ReconcilePlan) : Prop where
  untouched : Untouched B manifest vaults plan
  view : ∀ k, plan.view B k = plan'.view B k
  retained : ∀ k, k ∈ plan.retained → k ∈ plan'.retained ∨ Settled manifest vaults plan k
  retained' : ∀ k, k ∈ plan'.retained → k ∈ plan.retained ∨ Settled manifest vaults plan' k

variable {reads : DiscoveredFile → Bool} {plan : ReconcilePlan} {rest : List VaultRegistration}

lemma vaultEffect_foreign {context : VaultContext} {vault other : VaultRegistration}
    {world : VaultWorld} {path : Str} (hne : vault.id ≠ other.id)
    (hprev : manifest.files[sourceKey B.hash other.id path]? = some row)
    (hid : row.vaultId = other.id) :
    vaultEffect B manifest context vault world reads (sourceKey B.hash other.id path) view =
      view := by
  refine vaultEffect_of_ne (fun path' heq => hne (sourceKey_inj B.hash heq).1) ?_
  intro row' hprev' hid'
  cases hprev.symm.trans hprev'
  exact hne (hid'.symm.trans hid)

lemma isSome_row_iff : (plan.view B k).row.isSome = true ↔ k ∈ plan.nextManifest.files :=
  (Std.ExtTreeMap.mem_iff_isSome_getElem? (t := plan.nextManifest.files)).symm

lemma isSome_row_fileEffect {loop : KeyView × Bool} (context : VaultContext)
    (vault : VaultRegistration) (world : VaultWorld) (file : DiscoveredFile)
    (h : loop.1.row.isSome = true) :
    (fileEffect B manifest context vault world file loop).1.row.isSome = true := by
  unfold fileEffect
  simp only
  split
  · split
    · rfl
    · exact h
  · split
    · exact h
    · simp only [KeyView.reconcile]
      split <;> rfl

/-- A row that another vault owns is not lost to this one. -/
theorem isSome_row_vaultEffect_of_ne {context : VaultContext} {vault : VaultRegistration}
    {world : VaultWorld} (hprev : manifest.files[k]? = some row) (hid : row.vaultId ≠ vault.id)
    (h : view.row.isSome = true) :
    (vaultEffect B manifest context vault world reads k view).row.isSome = true := by
  simp only [vaultEffect, hprev, if_neg hid]
  split
  · exact h
  · split
    · exact isSome_row_fileEffect _ _ _ _ h
    · exact h


lemma mem_retained_retainSource {key : SourceKey} {reason : RetentionReason} :
    k ∈ (plan.retainSource key row reason).retained ↔ k ∈ plan.retained ∨ key = k := by
  simp [ReconcilePlan.retainSource, Std.ExtTreeMap.mem_insert, or_comm]

/-- Reading the file under a key fails, and a row is there to retain. -/
private def RetainedBy (B : Build) (manifest : Manifest) (vault : VaultRegistration)
    (world : VaultWorld) (k : SourceKey) (file : DiscoveredFile) : Prop :=
  sourceKey B.hash vault.id file.relativePath = k ∧
    (ingestFile B vault file (world.read file.relativePath)).kind = .transientError ∧
    (manifest.files[k]?).isSome = true

lemma mem_retained_planFile {context : VaultContext} {vault : VaultRegistration}
    {world : VaultWorld} (loop : OutcomeLoop) (file : DiscoveredFile) (k : SourceKey) :
    k ∈ (planFile B manifest context vault world loop file).plan.retained ↔
      k ∈ loop.plan.retained ∨ RetainedBy B manifest vault world k file := by
  have hspec := ingestFile_spec B vault file (world.read file.relativePath)
  simp only [planFile, planOutcome, hspec.vaultId, hspec.path, RetainedBy]
  split
  · rename_i hkind
    cases hprev : manifest.files[sourceKey B.hash vault.id file.relativePath]? with
    | none =>
      simp only [hkind, true_and, iff_self_or, and_imp]
      rintro rfl
      simp [hprev]
    | some row =>
      rw [mem_retained_retainSource]
      exact or_congr_right ⟨fun hkey => ⟨hkey, hkind, by simp [← hkey, hprev]⟩, And.left⟩
  · rename_i hkind
    simp only [hkind, false_and, and_false, or_false]
    split
    · rfl
    · simp only [ReconcilePlan.reconcileSource]
      split
      · rfl
      · split <;> rfl

lemma mem_retained_planMissing {context : VaultContext} {incomplete : Bool}
    {seen : Std.ExtTreeSet SourceKey} (plan : ReconcilePlan) (key k : SourceKey) :
    k ∈ (planMissing manifest context incomplete seen plan key).retained ↔
      k ∈ plan.retained ∨
        (key = k ∧ seen.contains k = false ∧ incomplete = true ∧
          (manifest.files[k]?).isSome = true) := by
  unfold planMissing
  cases hseen : seen.contains key with
  | true =>
    simp only [if_true, iff_self_or, and_imp]
    rintro rfl hunseen
    rw [hseen] at hunseen
    cases hunseen
  | false =>
    cases hprev : manifest.files[key]? with
    | none =>
      simp only [Bool.false_eq_true, if_false, iff_self_or, and_imp]
      rintro rfl - - hsome
      rw [hprev] at hsome
      cases hsome
    | some row =>
      cases incomplete with
      | false =>
        have hremoved : ∀ (scopes : List PartitionScope) (plan : ReconcilePlan),
            (scopes.foldl (fun plan scope => plan.removeIndexSource key scope) plan).retained =
              plan.retained := by
          intro scopes plan
          refine foldl_induction (P := fun p : ReconcilePlan => p.retained = plan.retained) ?_ scopes rfl
          exact fun _ _ h => h
        simp only [Bool.false_eq_true, if_false, hremoved, false_and, and_false, or_false]
        rfl
      | true =>
        simp only [Bool.false_eq_true, if_false, if_true, mem_retained_retainSource]
        exact or_congr_right
          ⟨fun hkey => ⟨hkey, hkey ▸ hseen, trivial, by simp [← hkey, hprev]⟩, And.left⟩

/-- What a vault retains: sources whose read failed, and unseen ones of an incomplete
    enumeration. -/
theorem mem_retained_planVault {context : VaultContext} {vault : VaultRegistration}
    {world : VaultWorld} (state : PassState) (k : SourceKey) :
    (k ∈ (planVault B manifest context vault world state).plan.retained →
      k ∈ state.plan.retained ∨
        (∃ file ∈ world.files, readsFile B vault manifest context
          (auditedKeys B vault world manifest context state.audit) file = true ∧
          RetainedBy B manifest vault world k file) ∨
        (world.completeness.mayInferDeletions = false ∧ k ∈ manifest.keysOfVault vault.id)) ∧
    ((k ∈ state.plan.retained ∨
        ∃ file ∈ world.files, readsFile B vault manifest context
          (auditedKeys B vault world manifest context state.audit) file = true ∧
          RetainedBy B manifest vault world k file) →
      k ∈ (planVault B manifest context vault world state).plan.retained) := by
  rw [plan_planVault]
  simp only
  set reads := readsFile B vault manifest context
    (auditedKeys B vault world manifest context state.audit)
  set start : OutcomeLoop := ⟨state.plan, Std.ExtTreeSet.ofList
    ((world.files.filter fun file => !reads file).map fun file =>
      sourceKey B.hash vault.id file.relativePath), state.warnings ++ world.warnings⟩
  rw [foldl_iff (P := fun plan : ReconcilePlan => k ∈ plan.retained)
      (fun plan key => mem_retained_planMissing plan key k),
    foldl_iff (P := fun loop : OutcomeLoop => k ∈ loop.plan.retained)
      (fun loop file => mem_retained_planFile loop file k)]
  constructor
  · rintro ((hold | ⟨file, hmem, hfile⟩) | ⟨key, hkey, rfl, -, hincomplete, -⟩)
    · exact .inl hold
    · obtain ⟨hin, hread⟩ := mem_filter.mp hmem
      exact .inr (.inl ⟨file, hin, hread, hfile⟩)
    · exact .inr (.inr ⟨by simpa using hincomplete, hkey⟩)
  · rintro (hold | ⟨file, hmem, hread, hfile⟩)
    · exact .inl (.inl hold)
    · exact .inl (.inr ⟨file, mem_filter.mpr ⟨hmem, hread⟩, hfile⟩)

/-- A source a vault retains stands in the next manifest. -/
theorem isSome_row_vaultEffect {context : VaultContext} {vault : VaultRegistration}
    {world : VaultWorld} (hprev : manifest.files[k]? = some row) (hid : row.vaultId = vault.id)
    (hview : ∀ path, sourceKey B.hash vault.id path = k → view.row = some row)
    (h : (∃ file ∈ world.files, reads file = true ∧ RetainedBy B manifest vault world k file) ∨
      world.completeness.mayInferDeletions = false) :
    (vaultEffect B manifest context vault world reads k view).row.isSome = true := by
  simp only [vaultEffect, hprev, if_pos hid]
  cases hfind : vaultFile B vault world k with
  | none =>
    rcases h with ⟨file, hmem, -, hkey, -, -⟩ | hincomplete
    · have hnone := find?_eq_none.mp hfind file hmem
      exact absurd (by simpa using hkey) hnone
    · simp [missingEffect, hincomplete, KeyView.setRow]
  | some file =>
    obtain ⟨hmem, hkey⟩ := vaultFile_eq_some.mp hfind
    have hrow : view.row.isSome = true := by rw [hview file.relativePath hkey]; rfl
    simp only
    split
    · have hafter : (fileEffect B manifest context vault world file (view, false)).1.row.isSome =
          true := isSome_row_fileEffect context vault world file hrow
      rcases h with ⟨other, hother, -, hotherKey, hkind, -⟩ | hincomplete
      · -- the file under the key is the one whose read fails, so the key is seen
        have hsame : other = file :=
          inj_on_of_nodup_map world.files_nodup hother hmem
            (sourceKey_inj B.hash (hotherKey.trans hkey.symm)).2
        subst hsame
        have hseen : (fileEffect B manifest context vault world other (view, false)).2 = true := by
          simp only [fileEffect, if_pos hkind]
        simp only [missingEffect, hseen, if_true]
        exact hafter
      · unfold missingEffect
        split
        · exact hafter
        · simp [hincomplete, KeyView.setRow]
    · simpa [missingEffect] using hrow

variable {state state' : PassState}

/-- What one choice of files retains and the other does not is settled. -/
theorem retained_step {context context' : VaultContext} {vault : VaultRegistration}
    {world : VaultWorld} (hreads : ∀ file ∈ world.files,
      readsFile B vault manifest context'
    (auditedKeys B vault world manifest context' state'.audit) file = true ∨
      ∀ row, manifest.files[sourceKey B.hash vault.id file.relativePath]? = some row →
      row.vaultId = vault.id) (hnodup : ∀ other ∈ rest, vault.id ≠ other.id)
    (huntouched : Untouched B manifest (vault :: rest) state.plan)
    (hretained : ∀ k, k ∈ state.plan.retained → k ∈ state'.plan.retained ∨
      Settled manifest (vault :: rest) state.plan k) (k : SourceKey)
    (h : k ∈ (planVault B manifest context vault world state).plan.retained) :
    k ∈ (planVault B manifest context' vault world state').plan.retained ∨
      Settled manifest rest (planVault B manifest context vault world state).plan k := by
  have hown : ∀ row, manifest.files[k]? = some row → row.vaultId = vault.id →
      ((∃ file ∈ world.files, readsFile B vault manifest context
          (auditedKeys B vault world manifest context state.audit) file = true ∧
          RetainedBy B manifest vault world k file) ∨
        world.completeness.mayInferDeletions = false) →
      Settled manifest rest (planVault B manifest context vault world state).plan k := by
    intro row hprev hid hreason
    refine ⟨?_, row, hprev, fun other hother heq => hnodup other hother (hid ▸ heq)⟩
    rw [← isSome_row_iff (B := B), view_planVault_eq]
    refine isSome_row_vaultEffect hprev hid (fun path hpath => ?_) hreason
    have hrow := huntouched vault mem_cons_self path row (hpath ▸ hprev) hid
    rwa [hpath] at hrow
  rcases (mem_retained_planVault state k).1 h with hold | ⟨file, hmem, hread, hfile⟩ |
    ⟨hincomplete, hkey⟩
  · rcases hretained k hold with hother | ⟨hin, row, hprev, hrest⟩
    · exact .inl ((mem_retained_planVault state' k).2 (.inl hother))
    · refine .inr ⟨?_, row, hprev, fun other hother => hrest other (mem_cons_of_mem _ hother)⟩
      rw [← isSome_row_iff (B := B), view_planVault_eq]
      exact isSome_row_vaultEffect_of_ne hprev (hrest vault mem_cons_self) (isSome_row_iff.mpr hin)
  · rcases hreads file hmem with hread' | hrecorded
    · exact .inl ((mem_retained_planVault state' k).2 (.inr ⟨file, hmem, hread', hfile⟩))
    · obtain ⟨row, hprev⟩ := isSome_iff_exists.mp hfile.2.2
      exact .inr (hown row hprev (hrecorded row (hfile.1 ▸ hprev))
        (.inl ⟨file, hmem, hread, hfile⟩))
  · obtain ⟨row, hprev, hid⟩ := mem_keysOfVault.mp hkey
    exact .inr (hown row hprev hid (.inr hincomplete))

/-- A mounted vault keeps the two plans alike. -/
theorem planVault_alike {context context' : VaultContext} {vault : VaultRegistration}
    {world : VaultWorld} (hcontext : context' = { context with policy := context'.policy })
    (hstrict : context'.policy.basis = .strictHash)
    (hfaithful : FaithfulReuse B manifest context vault world)
    (hfingerprint : context.fingerprint = registrationFingerprint B.hash vault)
    (hroom : vault.room ≠ some Str.empty) (hnodup : ∀ other ∈ rest, vault.id ≠ other.id)
    (h : Alike B manifest (vault :: rest) state.plan state'.plan) :
    Alike B manifest rest (planVault B manifest context vault world state).plan
      (planVault B manifest context' vault world state').plan := by
  have hread : ∀ file, readsFile B vault manifest context
        (auditedKeys B vault world manifest context state.audit) file = true ∨
      observeFile B vault manifest context file = .reuseMetadata := by
    intro file
    by_cases hreuse : observeFile B vault manifest context file = .reuseMetadata
    · exact .inr hreuse
    · exact .inl (by simp [readsFile, hreuse])
  have hread' : ∀ file, readsFile B vault manifest context'
      (auditedKeys B vault world manifest context' state'.audit) file = true := by
    -- under strict hashing every file is read
    intro file
    have hne : observeFile B vault manifest context' file ≠ .reuseMetadata := by
      unfold observeFile planObservation
      rw [if_pos hstrict]
      exact fun h => by cases h
    simp [readsFile, hne]
  have hview : ∀ k, (planVault B manifest context vault world state).plan.view B k =
      (planVault B manifest context' vault world state').plan.view B k := by
    intro k
    have hpolicy : ∀ reads view, vaultEffect B manifest context' vault world reads k view =
        vaultEffect B manifest context vault world reads k view := by
      intro reads view
      rw [hcontext]
      rfl
    rw [view_planVault_eq, view_planVault_eq, ← h.view k, hpolicy]
    refine vaultEffect_agrees hfaithful hfingerprint hroom (fun file _ => hread file)
      (fun file _ => .inl (hread' file)) ?_
    rintro path row rfl hprev hid
    exact h.untouched vault mem_cons_self path row hprev hid
  refine ⟨?_, hview, ?_, ?_⟩
  · intro other hother path row hprev hid
    rw [view_planVault_eq, vaultEffect_foreign (hnodup other hother) hprev hid]
    exact h.untouched other (mem_cons_of_mem _ hother) path row hprev hid
  · exact retained_step (fun file _ => .inl (hread' file)) hnodup h.untouched h.retained
  · refine retained_step (fun file hmem => ?_) hnodup ?_ h.retained'
    · rcases hread file with hfile | hreuse
      · exact .inl hfile
      · refine .inr fun row hprev => ?_
        obtain ⟨row', recordedVault, _, _, _, hprev', hkey, hrecords, -, -⟩ :=
          hfaithful file hmem hreuse
        rw [hprev, some.injEq] at hprev'
        subst hprev'
        exact hrecords.spec.vaultId.trans (sourceKey_inj B.hash hkey).1
    · intro other hother path row hprev hid
      rw [← h.view]
      exact h.untouched other hother path row hprev hid

/-- A vault that is not mounted keeps the two plans alike. -/
theorem retainVault_alike {vault : VaultRegistration} {message : String}
    (hnodup : ∀ other ∈ rest, vault.id ≠ other.id)
    (h : Alike B manifest (vault :: rest) state.plan state'.plan) :
    Alike B manifest rest (retainVault manifest vault message state).plan
      (retainVault manifest vault message state').plan := by
  have hretained : ∀ (state : PassState) k,
      k ∈ (retainVault manifest vault message state).plan.retained ↔
        k ∈ state.plan.retained ∨ k ∈ manifest.keysOfVault vault.id := by
    intro state k
    change k ∈ ((manifest.keysOfVault vault.id).foldl _ state.plan).retained ↔ _
    refine (foldl_iff (P := fun plan : ReconcilePlan => k ∈ plan.retained)
      (Q := fun key => key = k ∧ (manifest.files[k]?).isSome = true) (fun plan key => ?_)
      _ _).trans ?_
    · cases hprev : manifest.files[key]? with
      | none =>
        simp only [iff_self_or, and_imp]
        rintro rfl
        simp [hprev]
      | some row =>
        rw [mem_retained_retainSource]
        exact or_congr_right ⟨fun hkey => ⟨hkey, by simp [← hkey, hprev]⟩, And.left⟩
    refine or_congr_right ⟨?_, fun hkey => ?_⟩
    · rintro ⟨key, hkey, rfl, -⟩
      exact hkey
    · obtain ⟨row, hprev, -⟩ := mem_keysOfVault.mp hkey
      exact ⟨k, hkey, rfl, by simp [hprev]⟩
  have hstep : ∀ {state state' : PassState}, (∀ k, k ∈ state.plan.retained →
        k ∈ state'.plan.retained ∨ Settled manifest (vault :: rest) state.plan k) →
      ∀ k, k ∈ (retainVault manifest vault message state).plan.retained →
        k ∈ (retainVault manifest vault message state').plan.retained ∨
          Settled manifest rest (retainVault manifest vault message state).plan k := by
    intro state state' hold k hmem
    rcases (hretained state k).mp hmem with hmem | hkey
    · rcases hold k hmem with hother | ⟨hin, row, hprev, hrest⟩
      · exact .inl ((hretained state' k).mpr (.inl hother))
      · refine .inr ⟨?_, row, hprev, fun other hother => hrest other (mem_cons_of_mem _ hother)⟩
        rw [← isSome_row_iff (B := B), view_retainVault_eq]
        simpa only [hprev, if_neg (hrest vault mem_cons_self)] using isSome_row_iff.mpr hin
    · exact .inl ((hretained state' k).mpr (.inr hkey))
  refine ⟨?_, ?_, hstep h.retained, hstep h.retained'⟩
  · intro other hother path row hprev hid
    have hid' : ¬ row.vaultId = vault.id := fun h => hnodup other hother (h.symm.trans hid)
    rw [view_retainVault_eq]
    simp only [hprev, if_neg hid']
    exact h.untouched other (mem_cons_of_mem _ hother) path row hprev hid
  · intro k
    rw [view_retainVault_eq, view_retainVault_eq, h.view k]

lemma validateRetention_ok_iff :
    plan.validateRetention = .ok () ↔ ∀ k ∈ plan.retained, k ∈ plan.nextManifest.files := by
  unfold ReconcilePlan.validateRetention
  cases hfind : plan.retained.keys.find? fun key => key ∉ plan.nextManifest.files with
  | some key =>
    have hmem := mem_of_find?_eq_some hfind
    have hmissing := find?_some hfind
    simp only [reduceCtorEq, false_iff, not_forall]
    exact ⟨key, Std.ExtTreeMap.mem_keys.mp hmem, by simpa using hmissing⟩
  | none =>
    simp only [true_iff]
    intro k hk
    have hnone := find?_eq_none.mp hfind k (Std.ExtTreeMap.mem_keys.mpr hk)
    simpa using hnone

lemma Alike.validateRetention (h : Alike B manifest [] plan plan') :
    Agree (fun _ _ => True) plan.validateRetention plan'.validateRetention := by
  have hin : ∀ k, k ∈ plan.nextManifest.files ↔ k ∈ plan'.nextManifest.files := by
    intro k
    rw [← isSome_row_iff (B := B), ← isSome_row_iff (B := B), h.view]
  have hiff : plan.validateRetention = .ok () ↔ plan'.validateRetention = .ok () := by
    rw [validateRetention_ok_iff, validateRetention_ok_iff]
    constructor
    · intro hok k hk
      rcases h.retained' k hk with hk | hsettled
      · exact (hin k).mp (hok k hk)
      · exact hsettled.1
    · intro hok k hk
      rcases h.retained k hk with hk | hsettled
      · exact (hin k).mpr (hok k hk)
      · exact hsettled.1
  cases hplan : plan.validateRetention with
  | ok u =>
    rw [hiff.mp hplan]
    trivial
  | error e =>
    cases hplan' : plan'.validateRetention with
    | ok u =>
      rw [hiff.mpr hplan'] at hplan
      cases hplan
    | error e' => trivial

lemma Alike.samePlan {vaults : List VaultRegistration}
    (h : Alike B manifest vaults plan plan') : SamePlan B plan plan' :=
  SamePlan.of_view h.view

/-- A plan that still has every registered row as recorded is like itself. -/
theorem Alike.start {vaults : List VaultRegistration}
    (h : ∀ k row, manifest.files[k]? = some row → row.vaultId ∈ vaults.map VaultRegistration.id →
      (plan.view B k).row = some row) : Alike B manifest vaults plan plan where
  untouched _ hvault _ row hprev hid :=
    h _ row hprev (hid ▸ mem_map_of_mem hvault)
  view _ := rfl
  retained _ hk := .inl hk
  retained' _ hk := .inl hk

variable {config : Config} {scope : ReconcileScope}

/-! ## §3 The desktop pass -/

section

variable {auditCursor : ℕ} {world : PassWorld}
  (hrooms : ∀ vault ∈ config.vaults, vault.room ≠ some Str.empty)
  (hfaithful : ∀ vault ∈ config.vaults, (world.vault vault).isDir = true →
    FaithfulReuse B manifest
      (desktopContext B (config.withBasis .metadataAudit) scope world vault) vault
      (world.vault vault))

include hrooms hfaithful

lemma desktopLoop_alike (vaults : List VaultRegistration)
    (hvaults : vaults ⊆ config.vaults) (hnodup : (vaults.map VaultRegistration.id).Nodup)
    (h : Alike B manifest vaults state.plan state'.plan) :
    Alike B manifest []
      (vaults.foldl (planDesktopVault B manifest (config.withBasis .metadataAudit) scope world)
        state).plan
      (vaults.foldl (planDesktopVault B manifest (config.withBasis .strictHash) scope world)
        state').plan := by
  induction vaults generalizing state state' with
  | nil => exact h
  | cons vault rest ih =>
    obtain ⟨hhead, htail⟩ := nodup_cons.mp hnodup
    have hne : ∀ other ∈ rest, vault.id ≠ other.id := by
      intro other hother heq
      exact hhead (heq ▸ mem_map_of_mem hother)
    have hvault : vault ∈ config.vaults := hvaults mem_cons_self
    rw [foldl_cons, foldl_cons]
    refine ih (fun other hother => hvaults (mem_cons_of_mem _ hother)) htail ?_
    unfold planDesktopVault
    cases hdir : (world.vault vault).isDir with
    | false =>
      simp only [Bool.not_false, if_true]
      exact retainVault_alike hne h
    | true =>
      simp only [Bool.not_true, Bool.false_eq_true, if_false]
      exact planVault_alike rfl rfl (hfaithful vault hvault hdir) rfl (hrooms vault hvault) hne h

lemma desktopPlan_agrees :
    let reusing :=
      planDesktop B manifest (config.withBasis .metadataAudit) scope auditCursor world
    let hashing := planDesktop B manifest (config.withBasis .strictHash) scope auditCursor world
    SamePlan B reusing.plan hashing.plan ∧
      Agree (fun _ _ => True) reusing.plan.validateRetention hashing.plan.validateRetention := by
  have hstart : Alike B manifest config.vaults
      (desktopStart manifest (config.withBasis .metadataAudit) scope auditCursor).plan
      (desktopStart manifest (config.withBasis .strictHash) scope auditCursor).plan := by
    refine Alike.start fun k row hprev hid => ?_
    have hregistered : ¬ k ∈ manifest.unregisteredKeys (config.withBasis .metadataAudit) := by
      rw [mem_unregisteredKeys]
      rintro ⟨row', hprev', hnone⟩
      rw [hprev, some.injEq] at hprev'
      subst hprev'
      exact hnone hid
    rw [view_desktopStart, if_neg hregistered]
    exact hprev
  have halike := desktopLoop_alike hrooms hfaithful config.vaults (Subset.refl _)
    config.vaults_nodup hstart
  exact ⟨halike.samePlan, halike.validateRetention⟩

end

/-! ## §4 The OpenClast pass -/

section

/-- Removing a key from the index keeps two plans alike. -/
theorem Alike.removeIndexSource (h : Alike B manifest [] plan plan') (key : SourceKey)
    (s : PartitionScope) :
    Alike B manifest [] (plan.removeIndexSource key s) (plan'.removeIndexSource key s) where
  untouched vault hvault := absurd hvault not_mem_nil
  view k := by rw [ReconcilePlan.view_removeIndexSource, ReconcilePlan.view_removeIndexSource, h.view]
  retained := h.retained
  retained' := h.retained'

lemma sweepKeys_alike (h : Alike B manifest [] plan plan') (keys : List SourceKey)
    (s : PartitionScope) :
    Alike B manifest [] (keys.foldl (fun plan key => plan.removeIndexSource key s) plan)
      (keys.foldl (fun plan key => plan.removeIndexSource key s) plan') := by
  induction keys generalizing plan plan' with
  | nil => exact h
  | cons key rest ih => exact ih (h.removeIndexSource key s)

lemma sweepPartition_alike {partitions : Std.ExtTreeMap ResourceKey (List Document)}
    {faults : PassFaults} (resource : ResourceKey) (h : Alike B manifest [] plan plan') :
    Agree (Alike B manifest [])
      (sweepPartition B (config.withBasis .metadataAudit) partitions faults plan resource)
      (sweepPartition B (config.withBasis .strictHash) partitions faults plan' resource) := by
  unfold sweepPartition
  cases partitions[resource]? with
  | none => exact h
  | some documents =>
    simp only
    cases faults.attempt (.openPartition resource) with
    | error e => trivial
    | ok u =>
      -- both plans find the same keys unexpected
      have hrows : plan.nextManifest.files = plan'.nextManifest.files := h.samePlan.rows
      simp only [hrows]
      exact sweepKeys_alike h _ (.resource resource)

variable {world : PassWorld} {previousResources : Str → Option ResourceKey}

lemma openClastLoop_alike (hrooms : ∀ vault ∈ config.vaults, vault.room ≠ some Str.empty)
    (hfaithful : ∀ vault ∈ config.vaults, ∀ resource, config.resourceKey vault = some resource →
      (world.vault vault).isDir = true →
      FaithfulReuse B manifest
        (openClastContext B (config.withBasis .metadataAudit) scope world previousResources vault
          resource) vault (world.vault vault)) (vaults : List VaultRegistration)
    (hvaults : vaults ⊆ config.vaults) (hnodup : (vaults.map VaultRegistration.id).Nodup)
    {loop loop' : VaultLoop} (hresources : loop.nextResources = loop'.nextResources)
    (h : Alike B manifest vaults loop.pass.plan loop'.pass.plan) :
    Agree (fun loop loop' => loop.nextResources = loop'.nextResources ∧
        Alike B manifest [] loop.pass.plan loop'.pass.plan)
      (vaults.foldlM (planOpenClastVault B manifest (config.withBasis .metadataAudit) scope world
        previousResources) loop)
      (vaults.foldlM (planOpenClastVault B manifest (config.withBasis .strictHash) scope world
        previousResources) loop') := by
  induction vaults generalizing loop loop' with
  | nil => exact ⟨hresources, h⟩
  | cons vault rest ih =>
    obtain ⟨hhead, htail⟩ := nodup_cons.mp hnodup
    have hne : ∀ other ∈ rest, vault.id ≠ other.id := by
      intro other hother heq
      exact hhead (heq ▸ mem_map_of_mem hother)
    have hvault : vault ∈ config.vaults := hvaults mem_cons_self
    rw [foldlM_cons, foldlM_cons]
    have hstep : Agree (fun loop loop' => loop.nextResources = loop'.nextResources ∧
          Alike B manifest rest loop.pass.plan loop'.pass.plan)
        (planOpenClastVault B manifest (config.withBasis .metadataAudit) scope world
          previousResources loop vault)
        (planOpenClastVault B manifest (config.withBasis .strictHash) scope world
          previousResources loop' vault) := by
      have hkey : ∀ basis, requireResource (config.withBasis basis) vault =
          requireResource config vault := fun _ => rfl
      unfold planOpenClastVault
      rw [hkey, hkey]
      cases hresource : requireResource config vault with
      | error e => trivial
      | ok resource =>
        have hclassified : config.resourceKey vault = some resource := by
          unfold requireResource at hresource
          split at hresource
          · rename_i found hfound
            cases hresource
            exact hfound
          · cases hresource
        cases hdir : (world.vault vault).isDir with
        | false => exact ⟨by rw [hresources], retainVault_alike hne h⟩
        | true =>
          refine ⟨by rw [hresources], ?_⟩
          exact planVault_alike rfl rfl (hfaithful vault hvault resource hclassified hdir) rfl
            (hrooms vault hvault) hne h
    refine Agree.bind hstep fun loop loop' hloop => ?_
    exact ih (fun other hother => hvaults (mem_cons_of_mem _ hother)) htail hloop.1 hloop.2

lemma openClastPlan_agrees {manager : OpenClastIndexManager} {env : PassEnv}
    (hrooms : ∀ vault ∈ config.vaults, vault.room ≠ some Str.empty)
    (hfaithful : ∀ previousResources, resourcesByVault manager.layout = .ok previousResources →
      ∀ vault ∈ config.vaults, ∀ resource, config.resourceKey vault = some resource →
        (env.world.vault vault).isDir = true →
        FaithfulReuse B manager.manifest
          (openClastContext B (config.withBasis .metadataAudit) scope env.world previousResources
            vault resource) vault (env.world.vault vault)) :
    Agree (fun reusing hashing => SamePlan B reusing.plan hashing.plan ∧
        reusing.layout = hashing.layout)
      (planOpenClast B manager (config.withBasis .metadataAudit) scope env)
      (planOpenClast B manager (config.withBasis .strictHash) scope env) := by
  unfold planOpenClast
  cases hresources : resourcesByVault manager.layout with
  | error e => trivial
  | ok previousResources =>
    have hstart : Alike B manager.manifest config.vaults
        (openClastStart manager.manifest manager.layout config scope manager.auditCursor
          previousResources).pass.plan
        (openClastStart manager.manifest manager.layout config scope manager.auditCursor
          previousResources).pass.plan := by
      refine Alike.start fun k row hprev hid => ?_
      have hregistered : row.vaultId ∈ config.vaultIds := hid
      rw [view_openClastStart]
      simp only [hprev, if_pos hregistered]
      rfl
    change Agree _ (foldlM _ _ _ >>= _) (foldlM _ _ _ >>= _)
    refine Agree.bind (openClastLoop_alike hrooms (hfaithful previousResources hresources)
      config.vaults (Subset.refl _) config.vaults_nodup rfl hstart) fun loop loop' hloop => ?_
    rw [hloop.1]
    cases hlayout : GenerationLayout.openclast B loop'.nextResources with
    | error e => trivial
    | ok layout =>
      change Agree _ (foldlM _ _ _ >>= _) (foldlM _ _ _ >>= _)
      refine Agree.bind (Agree.foldlM (fun plan plan' resource h => sweepPartition_alike resource h)
        layout.resources hloop.2) fun plan plan' hplan => ?_
      exact Agree.bind hplan.validateRetention fun _ _ _ => ⟨hplan.samePlan, rfl⟩

end

end Passes

/-- **Metadata reuse agrees with strict hashing**: a pass of either manager plans the same rows,
deletions and additions at every key under the two bases, and is refused under both or neither, when
every source reused unread still has the bytes its row was recorded from. A blank room is refused by
the configuration. -/
theorem metadataAudit_agrees (B : Build) :
    (∀ (manifest : Manifest) (config : Config) (scope : ReconcileScope) (auditCursor : ℕ)
      (world : PassWorld),
      (∀ vault ∈ config.vaults, vault.room ≠ some Str.empty) →
      (∀ vault ∈ config.vaults, (world.vault vault).isDir = true →
        FaithfulReuse B manifest
          (desktopContext B (config.withBasis .metadataAudit) scope world vault) vault
          (world.vault vault)) →
      let reusing :=
        planDesktop B manifest (config.withBasis .metadataAudit) scope auditCursor world
      let hashing := planDesktop B manifest (config.withBasis .strictHash) scope auditCursor world
      SamePlan B reusing.plan hashing.plan ∧
        Agree (fun _ _ => True) reusing.plan.validateRetention hashing.plan.validateRetention) ∧
    ∀ (manager : OpenClastIndexManager) (config : Config) (scope : ReconcileScope) (env : PassEnv),
      (∀ vault ∈ config.vaults, vault.room ≠ some Str.empty) →
      (∀ previousResources, resourcesByVault manager.layout = .ok previousResources →
        ∀ vault ∈ config.vaults, ∀ resource, config.resourceKey vault = some resource →
          (env.world.vault vault).isDir = true →
          FaithfulReuse B manager.manifest
            (openClastContext B (config.withBasis .metadataAudit) scope env.world
              previousResources vault resource) vault (env.world.vault vault)) →
      Agree (fun reusing hashing => SamePlan B reusing.plan hashing.plan ∧
          reusing.layout = hashing.layout)
        (planOpenClast B manager (config.withBasis .metadataAudit) scope env)
        (planOpenClast B manager (config.withBasis .strictHash) scope env) :=
  ⟨fun _ _ _ _ _ hrooms hfaithful => desktopPlan_agrees hrooms hfaithful,
    fun _ _ _ _ hrooms hfaithful => openClastPlan_agrees hrooms hfaithful⟩

/-! ## §5 A note left alone -/

/-- The note some time after it was recorded. -/
def laterEnv : PassEnv := { noteEnv 0 with world := { noteWorld 0 with nowNanos := 1 } }

def noteFile : DiscoveredFile :=
  ⟨['/', 'v', '/', 'a', '.', 'm', 'd'], ⟨['a', '.', 'm', 'd'], notePath_fits⟩, .markdown, 1, 0,
    notePath_registered⟩

/-- A row recorded as the text of the note. -/
private def RecordedAsNote (manifest : Manifest) (vault : VaultRegistration)
    (resource : Option ResourceKey) : Prop :=
  (manifest.files[sourceKey Build.plain.hash vault.id noteFile.relativePath]?).isSome = true ∧
  (manifest.files[sourceKey Build.plain.hash vault.id noteFile.relativePath]?).map
      (fun row => (sourceKey Build.plain.hash vault.id noteFile.relativePath, row)) =
    ManifestFile.fromOutcome Build.plain (ingestFile Build.plain vault noteFile (.bytes [120]))
      (registrationFingerprint Build.plain.hash vault) resource

lemma faithfulReuse_note {manifest : Manifest} {context : VaultContext}
    {vault : VaultRegistration} (h : RecordedAsNote manifest vault context.resource) :
    FaithfulReuse Build.plain manifest context vault (laterEnv.world.vault vault) := by
  intro file hfile _
  cases mem_singleton.mp hfile
  obtain ⟨row, hprev⟩ := isSome_iff_exists.mp h.1
  have hrow := h.2
  rw [hprev] at hrow
  exact ⟨row, vault, noteFile, [120], context.resource, hprev, rfl, hrow.symm, rfl, .inl rfl⟩

def roomVault : VaultRegistration := { noteVault with room := some oldRoom }

lemma noteManager_recorded : RecordedAsNote noteManager.manifest noteVault none := by
  unfold RecordedAsNote
  decide +kernel

lemma roomManager_recorded :
    RecordedAsNote roomManager.manifest roomVault (some roomResource) := by
  unfold RecordedAsNote
  decide +kernel

/-- The comparison at the note, which both managers reuse. -/
theorem note_agrees :
    observeFile Build.plain noteVault noteManager.manifest
        (desktopContext Build.plain (noteConfig.withBasis .metadataAudit) .full laterEnv.world
          noteVault) noteFile = .reuseMetadata ∧
    SamePlan Build.plain
      (planDesktop Build.plain noteManager.manifest (noteConfig.withBasis .metadataAudit) .full 0
        laterEnv.world).plan
      (planDesktop Build.plain noteManager.manifest (noteConfig.withBasis .strictHash) .full 0
        laterEnv.world).plan ∧
    Agree (fun reusing hashing => SamePlan Build.plain reusing.plan hashing.plan ∧
        reusing.layout = hashing.layout)
      (planOpenClast Build.plain roomManager ((roomConfig oldRoom).withBasis .metadataAudit) .full
        laterEnv)
      (planOpenClast Build.plain roomManager ((roomConfig oldRoom).withBasis .strictHash) .full
        laterEnv) := by
  refine ⟨by decide +kernel, ?_, ?_⟩
  · refine ((metadataAudit_agrees Build.plain).1 noteManager.manifest noteConfig .full 0
      laterEnv.world (fun vault hvault => ?_) fun vault hvault _ => ?_).1
    · cases mem_singleton.mp hvault
      exact fun h => by cases h
    · cases mem_singleton.mp hvault
      exact faithfulReuse_note noteManager_recorded
  · refine (metadataAudit_agrees Build.plain).2 roomManager (roomConfig oldRoom) .full laterEnv
      (fun vault hvault => ?_) fun _ _ vault hvault resource hresource _ => ?_
    · cases mem_singleton.mp hvault
      decide
    · cases mem_singleton.mp hvault
      have hroom : (roomConfig oldRoom).resourceKey roomVault = some roomResource := by
        decide +kernel
      cases hroom.symm.trans hresource
      exact faithfulReuse_note roomManager_recorded

end Kwiry
