import Kwiry.Runtime.Convergence
import Kwiry.Runtime.SemanticStore

/-!
# The Semantic Store across Passes

The last part of `DesktopIndexManager::reconcile`: after the committed state is in place, the
sources of the pass are offered to the semantic store, the deleted ones are deleted, and every
source without a manifest row is cleaned up. A failure is a warning and stops nothing else.

The store outlives the manager. Its own invariant is `Sound`: what it holds of a source is
some text's identity with the chunk ids of that text. It says nothing of the manifest, and
holds whatever passes ran with the runtime on, off or failing. `semantic_converges` is what
one complete pass adds.
-/

namespace Kwiry

open Foundations List Option

variable (B : Build)

/-! ## §1 What a pass offers -/

abbrev SemanticSources := Std.ExtTreeMap SourceKey SemanticSource

/-- The text an embedding is computed over. -/
def embeddingText (headingPath : List Text) (content : Text) : Text :=
  let text := joinWith [' ', '>', ' '] headingPath
  (if text.isEmpty then text else text ++ ['\n']) ++ content

/-- What an outcome offers: nothing unless it is recorded with chunks. -/
def semanticSource (context : VaultContext) (outcome : FileIngestOutcome) : Option SemanticSource :=
  if outcome.kind = .transientError then none
  else
    match ManifestFile.fromOutcome B outcome context.fingerprint context.resource with
    | none => none
    | some (_, next) =>
      if outcome.chunks.isEmpty then none
      else
        some {
          identity := B.embeddingSourceIdentity next.contentHash next.format
          chunks := outcome.chunks.map fun prepared =>
            (prepared.chunk.chunkId,
              embeddingText prepared.chunk.headingPath prepared.chunk.content) }

def offerOutcome (context : VaultContext) (sources : SemanticSources)
    (outcome : FileIngestOutcome) : SemanticSources :=
  match semanticSource B context outcome with
  | none => sources
  | some source => sources.insert (sourceKey B.hash outcome.vaultId outcome.path) source

/-- The sources an available vault offers, under the audit budget it is observed with. -/
def offerVault (manifest : Manifest) (context : VaultContext) (vault : VaultRegistration)
    (world : VaultWorld) (audit : AuditBudget) (sources : SemanticSources) : SemanticSources :=
  (observeVault B vault world manifest context audit).1.outcomes.foldl (offerOutcome B context)
    sources

/-- One vault of the pass: its plan, and its offers when it is available. -/
def planSemanticVault (manifest : Manifest) (config : Config) (scope : ReconcileScope)
    (world : PassWorld) (state : PassState × SemanticSources) (vault : VaultRegistration) :
    PassState × SemanticSources :=
  (planDesktopVault B manifest config scope world state.1 vault,
    if !(world.vault vault).isDir then state.2
    else offerVault B manifest (desktopContext B config scope world vault) vault
      (world.vault vault) state.1.audit state.2)

def semanticSources (manifest : Manifest) (config : Config) (scope : ReconcileScope)
    (auditCursor : ℕ) (world : PassWorld) : SemanticSources :=
  (config.vaults.foldl (planSemanticVault B manifest config scope world)
    (desktopStart manifest config scope auditCursor, ∅)).2

/-! ## §2 The semantic part of a pass -/

section

variable (host : SemanticHost) (sources : SemanticSources)

/-- The offers of a pass, in key order. -/
def embedSources (store : SemanticStore) : SemanticStore × List IngestWarning :=
  sources.toList.foldl
    (logged (SemanticStore.embedAndReplaceSource host) fun source error =>
      ⟨hexText source.1, "semantic update failed; lexical unaffected: " ++ error⟩)
    (store, [])

/-- The deletions of a pass. A source that was offered is not deleted again. -/
def deleteSources (deletes : Std.ExtTreeSet SourceKey) (state : SemanticStore × List IngestWarning) :
    SemanticStore × List IngestWarning :=
  (deletes.toList.filter fun key => !sources.contains key).foldl
    (logged (SemanticStore.deleteIndexSource host) fun key error =>
      ⟨hexText key, "semantic delete failed; lexical unaffected: " ++ error⟩)
    state

def semanticUpdate (deletes : Std.ExtTreeSet SourceKey) (keep : SourceKey → Bool)
    (store : SemanticStore) :
    SemanticStore × List IngestWarning :=
  let state := deleteSources host sources deletes (embedSources host sources store)
  match SemanticStore.retainSources host keep state.1 with
  | (kept, .ok ()) => (kept, state.2)
  | (kept, .error error) =>
    (kept, state.2 ++
      [⟨"semantic".toList, "semantic cleanup failed; lexical unaffected: " ++ error⟩])

end

/-- What a successful pass does to the store, with its warnings. Without a host the runtime is not
installed. -/
def semanticPass (manager : DesktopIndexManager) (config : Config) (scope : ReconcileScope)
    (world : PassWorld) (host : Option SemanticHost) (store : SemanticStore) :
    SemanticStore × List IngestWarning :=
  match host with
  | none => (store, [])
  | some host =>
    let plan := (planDesktop B manager.manifest config scope manager.auditCursor world).plan
    semanticUpdate host
      (semanticSources B manager.manifest config scope manager.auditCursor world)
      (plan.deletesAt .whole) (fun key => plan.nextManifest.files.contains key) store

/-- Managers over one store: builds and opens, the store opened under other profiles, and passes
with the runtime on or off. -/
inductive SemanticRun : DesktopIndexManager → SemanticStore → Prop where
  | opened {built config : Config} {buildEnv env : PassEnv} {generation : DesktopGeneration}
      {residentDeletions : Bool} {manager : DesktopIndexManager} (profile : EmbeddingProfile)
      (hbuild : buildDesktopIndex B built buildEnv = .ok generation)
      (hopen : DesktopIndexManager.openManager B config generation residentDeletions env =
        .ok manager) : SemanticRun manager (SemanticStore.new profile)
  | rebuilt {built config : Config} {buildEnv env : PassEnv} {generation : DesktopGeneration}
      {residentDeletions : Bool} {previous manager : DesktopIndexManager}
      {store : SemanticStore} (hrun : SemanticRun previous store)
      (hbuild : buildDesktopIndex B built buildEnv = .ok generation)
      (hopen : DesktopIndexManager.openManager B config generation residentDeletions env =
        .ok manager) : SemanticRun manager store
  | restarted {config : Config} {env : PassEnv} {residentDeletions : Bool}
      {previous manager : DesktopIndexManager} {store : SemanticStore}
      (hrun : SemanticRun previous store)
      (hopen : DesktopIndexManager.openManager B config previous.active residentDeletions env =
        .ok manager) : SemanticRun manager store
  | attached {manager : DesktopIndexManager} {store : SemanticStore}
      (profile : EmbeddingProfile) (hrun : SemanticRun manager store) :
      SemanticRun manager (store.reopen profile)
  | pass {manager after : DesktopIndexManager} {store : SemanticStore} {config : Config}
      {scope : ReconcileScope} {env : PassEnv} {report : ReconcileReport}
      (host : Option SemanticHost) (hrun : SemanticRun manager store)
      (hpass : manager.reconcile B config scope env = (after, .ok report)) :
      SemanticRun after (semanticPass B manager config scope env.world host store).1

/-! ## §3 The store invariant -/

/-- The ids are those of a text at the key, and the identity is that text's. -/
def EmbeddedText (key : SourceKey) (identity : Digest) (ids : List Digest) : Prop :=
  ∃ (vault : VaultRegistration) (file : DiscoveredFile) (bytes : Bytes),
    key = sourceKey B.hash vault.id file.relativePath ∧
    (ingestFile B vault file (.bytes bytes)).chunks ≠ [] ∧
    identity = B.embeddingSourceIdentity (B.hash.digest bytes) file.format ∧
    ids = (ingestFile B vault file (.bytes bytes)).chunkIds

/-- An entry is empty or some text's. -/
def SoundEntry (key : SourceKey) (entry : Option Digest × List Digest) : Prop :=
  entry = (none, []) ∨ ∃ identity ids, entry = (some identity, ids) ∧
    EmbeddedText B key identity ids

def SemanticStore.Sound (store : SemanticStore) : Prop :=
  ∀ key, SoundEntry B key (store.entry key)

/-- Every offer is some text's. -/
def SemanticSources.Sound (sources : SemanticSources) : Prop :=
  ∀ key source, sources[key]? = some source →
    EmbeddedText B key source.identity (source.chunks.map Prod.fst)

variable {B}

variable {key : SourceKey}

/-- The identity of a text determines its chunk ids. -/
theorem EmbeddedText.ids_eq {identity : Digest} {ids ids' : List Digest}
    (h : EmbeddedText B key identity ids) (h' : EmbeddedText B key identity ids') : ids = ids' := by
  obtain ⟨vault, file, bytes, hkey, hchunks, hidentity, rfl⟩ := h
  obtain ⟨vault', file', bytes', hkey', hchunks', hidentity', rfl⟩ := h'
  obtain ⟨hid, hpath⟩ := sourceKey_inj B.hash (hkey.symm.trans hkey')
  have hformat : file.format = file'.format := by
    have hregistered := file.registered
    rw [hpath, file'.registered, some.injEq] at hregistered
    exact hregistered.symm
  rw [hidentity, hformat] at hidentity'
  have hbytes : bytes = bytes' := B.hash.injective (Build.embeddingSourceIdentity_inj hidentity')
  subst hbytes
  exact ingestFile_chunkIds hid hpath hchunks hchunks'

/-- What an ingest offers is its text's. -/
theorem semanticSource_ingestFile {context : VaultContext} {vault : VaultRegistration}
    {file : DiscoveredFile} {read : SnapshotRead} {source : SemanticSource}
    (hfingerprint : context.fingerprint = registrationFingerprint B.hash vault)
    (h : semanticSource B context (ingestFile B vault file read) = some source) :
    EmbeddedText B (sourceKey B.hash vault.id file.relativePath) source.identity
      (source.chunks.map Prod.fst) := by
  unfold semanticSource at h
  split at h
  · cases h
  split at h
  · cases h
  rename_i hrow
  rw [hfingerprint] at hrow
  obtain ⟨-, hrecords⟩ := fromOutcome_ingestFile hrow
  obtain ⟨bytes, hread, hhash, -⟩ := hrecords.spec.contentHash
  split at h
  · cases h
  rename_i hchunks
  cases h
  refine ⟨vault, file, bytes, rfl, ?_, ?_, ?_⟩
  · rw [← hread]
    simpa using hchunks
  · rw [hhash, hrecords.format]
  · rw [← hread]
    simp [FileIngestOutcome.chunkIds, Function.comp_def]

variable (B) in
/-- The offer of one file of a vault. -/
private def offerFile (context : VaultContext) (vault : VaultRegistration) (world : VaultWorld)
    (sources : SemanticSources) (file : DiscoveredFile) : SemanticSources :=
  offerOutcome B context sources (ingestFile B vault file (world.read file.relativePath))

/-- What is offered at a key. -/
private def SemanticSources.offer (sources : SemanticSources) (key : SourceKey) :
    Option SemanticSource :=
  sources[key]?

section

variable (context : VaultContext) (vault : VaultRegistration) (world : VaultWorld)
  (sources : SemanticSources) (file : DiscoveredFile) (k : SourceKey)

lemma offer_offerFile :
    (offerFile B context vault world sources file).offer k =
      if sourceKey B.hash vault.id file.relativePath = k then
        (semanticSource B context (ingestFile B vault file (world.read file.relativePath))).or
          (sources.offer k)
      else sources.offer k := by
  have hspec := ingestFile_spec B vault file (world.read file.relativePath)
  unfold SemanticSources.offer offerFile offerOutcome
  cases semanticSource B context (ingestFile B vault file (world.read file.relativePath)) with
  | none => simp
  | some source =>
    simp only [hspec.vaultId, hspec.path, Std.ExtTreeMap.getElem?_insert,
      Std.LawfulEqCmp.compare_eq_iff_eq, some_or]

end

lemma offerVault_eq (manifest : Manifest) (context : VaultContext) (vault : VaultRegistration)
    (world : VaultWorld) (audit : AuditBudget) (sources : SemanticSources) :
    offerVault B manifest context vault world audit sources =
      (world.files.filter (readsFile B vault manifest context
        (auditedKeys B vault world manifest context audit))).foldl
        (offerFile B context vault world) sources := by
  simp only [offerVault, observeVault, auditedKeys, foldl_map]
  rfl

lemma offer_offerVault (manifest : Manifest) (context : VaultContext) (vault : VaultRegistration)
    (world : VaultWorld) (audit : AuditBudget) (sources : SemanticSources) (k : SourceKey) :
    (offerVault B manifest context vault world audit sources).offer k =
      ((vaultFile B vault world k).filter (readsFile B vault manifest context
        (auditedKeys B vault world manifest context audit))).elim (sources.offer k) fun file =>
          (semanticSource B context (ingestFile B vault file (world.read file.relativePath))).or
            (sources.offer k) := by
  rw [offerVault_eq, view_foldl SemanticSources.offer (fun file previous =>
    (semanticSource B context (ingestFile B vault file (world.read file.relativePath))).or previous)
    (offer_offerFile context vault world) (nodup_fileKeys.sublist (filter_sublist.map _)),
    find?_filter_files]

/-- Every offer of a pass is some text's. -/
theorem sound_semanticSources (manifest : Manifest) (config : Config) (scope : ReconcileScope)
    (auditCursor : ℕ) (world : PassWorld) :
    (semanticSources B manifest config scope auditCursor world).Sound B := by
  refine foldl_induction (P := fun state : PassState × SemanticSources => state.2.Sound B) ?_ _ ?_
  · intro state vault hstate
    simp only [planSemanticVault]
    split
    · exact hstate
    · rw [offerVault_eq]
      refine foldl_induction (P := SemanticSources.Sound B) ?_ _ hstate
      intro sources file hsources k source hget
      change (offerFile B _ vault (world.vault vault) sources file).offer k = some source at hget
      rw [offer_offerFile] at hget
      split at hget
      · rename_i hkey
        subst hkey
        cases hoffer : semanticSource B (desktopContext B config scope world vault)
            (ingestFile B vault file ((world.vault vault).read file.relativePath)) with
        | none =>
          rw [hoffer, none_or] at hget
          exact hsources _ _ hget
        | some offered =>
          rw [hoffer, some_or, some.injEq] at hget
          subst hget
          exact semanticSource_ingestFile rfl hoffer
      · exact hsources _ _ hget
  · intro k source hget
    simp at hget

/-! ## §4 Updates keep the invariant -/

lemma SoundEntry.ids_eq_nil {entry : Option Digest × List Digest} (h : SoundEntry B key entry)
    (hnone : entry.1 = none) : entry = (none, []) := by
  rcases h with hempty | ⟨identity, ids, rfl, -⟩
  · exact hempty
  · cases hnone

lemma sound_new (profile : EmbeddingProfile) : (SemanticStore.new profile).Sound B :=
  fun key => .inl (SemanticStore.entry_new profile key)

namespace SemanticStore.Sound

variable {store store' : SemanticStore} {host : SemanticHost}

section

variable (h : store.Sound B)

include h

lemma reopen (profile : EmbeddingProfile) : (store.reopen profile).Sound B := by
  intro key
  rcases SemanticStore.entry_reopen store profile key with hsame | hgone
  · rw [hsame]
    exact h key
  · exact .inl hgone

lemma embedAndReplaceSource {source : SourceKey × SemanticSource}
    (hsource : EmbeddedText B source.1 source.2.identity (source.2.chunks.map Prod.fst))
    (hstep : store.embedAndReplaceSource host source = .ok store') : store'.Sound B := by
  intro key
  rw [SemanticStore.entry_embedAndReplaceSource hstep]
  split
  · rename_i hwritten
    rw [← hwritten.1]
    exact .inr ⟨_, _, rfl, hsource⟩
  · exact h key

lemma deleteIndexSource {deleted : SourceKey}
    (hstep : store.deleteIndexSource host deleted = .ok store') : store'.Sound B := by
  intro key
  rw [SemanticStore.entry_deleteIndexSource hstep]
  split
  · exact .inl rfl
  · exact h key

lemma retainSources (host : SemanticHost) (keep : SourceKey → Bool) :
    (SemanticStore.retainSources host keep store).1.Sound B := by
  intro key
  rcases SemanticStore.entry_retainSources host keep store key with hsame | hgone
  · rw [hsame]
    exact h key
  · exact .inl hgone

/-- The semantic part of a pass keeps the store sound, whatever fails in it. -/
theorem semanticUpdate {sources : SemanticSources} (hsources : sources.Sound B)
    (deletes : Std.ExtTreeSet SourceKey) (keep : SourceKey → Bool) :
    (Kwiry.semanticUpdate host sources deletes keep store).1.Sound B := by
  have hembedded : (embedSources host sources store).1.Sound B := by
    refine foldl_logged_induction (P := SemanticStore.Sound B) ?_ h
    rintro s t ⟨key, source⟩ hmem hs hstep
    have hget := Std.ExtTreeMap.mem_toList_iff_getElem?_eq_some.mp hmem
    exact hs.embedAndReplaceSource (hsources key source hget) hstep
  have hdeleted :
      (deleteSources host sources deletes (embedSources host sources store)).1.Sound B := by
    refine foldl_logged_induction (P := SemanticStore.Sound B) ?_ hembedded
    intro s t key _ hs hstep
    exact hs.deleteIndexSource hstep
  have hkept := hdeleted.retainSources host keep
  unfold Kwiry.semanticUpdate
  simp only
  split
  · rename_i kept hresult
    rw [hresult] at hkept
    exact hkept
  · rename_i kept error hresult
    rw [hresult] at hkept
    exact hkept

lemma semanticPass (manager : DesktopIndexManager) (config : Config) (scope : ReconcileScope)
    (world : PassWorld) (host : Option SemanticHost) :
    (Kwiry.semanticPass B manager config scope world host store).1.Sound B := by
  cases host with
  | none => exact h
  | some host => exact h.semanticUpdate (sound_semanticSources _ _ _ _ _) _ _

end

end SemanticStore.Sound

/-- A successful pass leaves the served generation under the manager's manifest. -/
theorem active_manifest_reconcile {manager after : DesktopIndexManager} {config : Config}
    {scope : ReconcileScope} {env : PassEnv} {report : ReconcileReport}
    (hsame : manager.active.manifest = manager.manifest)
    (h : manager.reconcile B config scope env = (after, .ok report)) :
    after.active.manifest = after.manifest := by
  obtain ⟨-, -, ⟨candidate, -, hactive, hmanifest⟩ | ⟨-, hactive, hmanifest⟩⟩ :=
    DesktopIndexManager.reconcile_ok_cases h
  · rw [hactive, hmanifest]
  · rw [hactive, hmanifest, hsame]

/-- **The invariant of a run**: every source is recorded, and the store is sound. -/
theorem recorded_and_sound_of_run {manager : DesktopIndexManager} {store : SemanticStore}
    (h : SemanticRun B manager store) :
    manager.Recorded B ∧ manager.active.manifest = manager.manifest ∧ store.Sound B := by
  induction h with
  | opened profile hbuild hopen =>
    obtain ⟨hrecorded, hsame⟩ := recorded_openManager (recorded_buildDesktopIndex hbuild) hopen
    exact ⟨hrecorded, hsame, sound_new profile⟩
  | rebuilt hrun hbuild hopen ih =>
    obtain ⟨hrecorded, hsame⟩ := recorded_openManager (recorded_buildDesktopIndex hbuild) hopen
    exact ⟨hrecorded, hsame, ih.2.2⟩
  | restarted hrun hopen ih =>
    obtain ⟨hrecorded, hsame, hsound⟩ := ih
    obtain ⟨hrecorded', hsame'⟩ := recorded_openManager (fun key => by
      rw [hsame]
      exact hrecorded key) hopen
    exact ⟨hrecorded', hsame', hsound⟩
  | attached profile hrun ih => exact ⟨ih.1, ih.2.1, ih.2.2.reopen profile⟩
  | pass host hrun hpass ih =>
    obtain ⟨hrecorded, hsame, hsound⟩ := ih
    exact ⟨hrecorded.reconcile hpass, active_manifest_reconcile hsame hpass,
      hsound.semanticPass _ _ _ _ _⟩

/-! ## §5 A pass without semantic warnings -/

/-- What a source's offer leaves of its entry. -/
def SemanticSource.entryAfter (source : SemanticSource) (entry : Option Digest × List Digest) :
    Option Digest × List Digest :=
  if entry.1 = some source.identity then entry
  else (some source.identity, source.chunks.map Prod.fst)

section Quiet

variable {store : SemanticStore} {host : SemanticHost} {sources : SemanticSources}

lemma entry_embedLoop {store' : SemanticStore}
    (h : sources.toList.foldlM (SemanticStore.embedAndReplaceSource host) store = .ok store')
    (k : SourceKey) :
    store'.entry k =
      match sources[k]? with
      | none => store.entry k
      | some source => source.entryAfter (store.entry k) := by
  have hframe : ∀ (s t : SemanticStore) (source : SourceKey × SemanticSource) (k : SourceKey),
      s.embedAndReplaceSource host source = .ok t → ¬ source.1 = k → t.entry k = s.entry k := by
    intro s t source k hstep hne
    rw [SemanticStore.entry_embedAndReplaceSource hstep, if_neg fun hboth => hne hboth.1]
  cases hget : sources[k]? with
  | none =>
    rw [foldlM_eq_of_no_footprint _ SemanticStore.entry (fun source k => source.1 = k) hframe h]
    rintro ⟨key, source⟩ hmem rfl
    rw [Std.ExtTreeMap.mem_toList_iff_getElem?_eq_some.mp hmem] at hget
    cases hget
  | some source =>
    have hdisjoint : sources.toList.Pairwise fun a b => ∀ k, ¬ (a.1 = k ∧ b.1 = k) := by
      refine Std.ExtTreeMap.distinct_keys_toList.imp ?_
      rintro a b hab k ⟨rfl, hb⟩
      exact hab (by simp [hb])
    obtain ⟨s, t, hs, hstep, ht⟩ := foldlM_eq_of_footprint _ SemanticStore.entry
      (fun source k => source.1 = k) hframe hdisjoint h k
      (Std.ExtTreeMap.mem_toList_iff_getElem?_eq_some.mpr hget) rfl
    rw [ht, SemanticStore.entry_embedAndReplaceSource hstep, hs]
    simp only [SemanticSource.entryAfter]
    by_cases hsame : (store.entry k).1 = some source.identity <;> simp [hsame]

lemma entry_deleteLoop {keys : List SourceKey} {store' : SemanticStore}
    (h : keys.foldlM (SemanticStore.deleteIndexSource host) store = .ok store') (k : SourceKey) :
    store'.entry k = if k ∈ keys then (none, []) else store.entry k := by
  induction keys generalizing store with
  | nil =>
    cases h
    simp
  | cons key rest ih =>
    obtain ⟨middle, hstep, hrest⟩ := foldlM_cons_ok _ h
    rw [ih hrest, SemanticStore.entry_deleteIndexSource hstep]
    by_cases hk : key = k
    · simp [hk]
    · simp [hk, Ne.symm hk]

/-- **The semantic part of a pass without warnings**, at one key: an offered source is brought to
its identity, a deleted one that is not offered is emptied, and one that is not kept is not
recorded. -/
theorem entry_semanticUpdate {deletes : Std.ExtTreeSet SourceKey} {keep : SourceKey → Bool}
    (hquiet : (semanticUpdate host sources deletes keep store).2 = []) (k : SourceKey) :
    let left := (semanticUpdate host sources deletes keep store).1
    (keep k = false → (left.entry k).1 = none) ∧
      (keep k = true → left.entry k =
        match sources[k]? with
        | some source => source.entryAfter (store.entry k)
        | none => if k ∈ deletes then (none, []) else store.entry k) := by
  intro left
  set state := deleteSources host sources deletes (embedSources host sources store) with hstate
  -- the three stages, each of which succeeded
  have hstages : state.2 = [] ∧ (SemanticStore.retainSources host keep state.1).2 = .ok () ∧
      left = (SemanticStore.retainSources host keep state.1).1 := by
    simp only [left]
    unfold semanticUpdate at hquiet ⊢
    simp only [← hstate] at hquiet ⊢
    split at hquiet
    · rename_i kept hresult
      rw [hresult]
      exact ⟨hquiet, rfl, rfl⟩
    · simp at hquiet
  obtain ⟨hlog, hretain, hleft⟩ := hstages
  obtain ⟨hlogEmbedded, hdelete⟩ := foldlM_ok_of_foldl_logged hlog
  obtain ⟨-, hembed⟩ := foldlM_ok_of_foldl_logged hlogEmbedded
  have hafterDelete := entry_deleteLoop hdelete k
  have hafterEmbed := entry_embedLoop hembed k
  rw [hleft, SemanticStore.entry_retainSources_ok hretain]
  constructor
  · intro hdrop
    by_cases hmem : k ∈ state.1.sourceState
    · rw [if_pos ⟨hdrop, hmem⟩]
    · rw [if_neg fun hboth => hmem hboth.2]
      rw [SemanticStore.mem_sourceState_iff, not_not] at hmem
      exact hmem
  · intro hkeep
    rw [if_neg fun hboth => by simp [hkeep] at hboth]
    refine hafterDelete.trans ?_
    simp only [mem_filter, Std.ExtTreeSet.mem_toList, Bool.not_eq_true',
      Std.ExtTreeMap.contains_eq_isSome_getElem?]
    rw [show (embedSources host sources store).1.entry k = _ from hafterEmbed]
    cases sources[k]? with
    | some source => simp
    | none => simp

end Quiet

/-! ## §6 What a complete pass offers -/

/-- A strict pass over available vaults and complete enumerations. Reads may fail. -/
structure CompletePass (config : Config) (world : PassWorld) : Prop where
  strictHash : config.basis = .strictHash
  available : ∀ vault ∈ config.vaults, (world.vault vault).isDir = true
  complete : ∀ vault ∈ config.vaults, (world.vault vault).completeness = .complete

section Offers

variable {manifest : Manifest} {config : Config} {scope : ReconcileScope} {auditCursor : ℕ}
  {world : PassWorld} {vault : VaultRegistration}

/-- A vault offers nothing at a foreign key. -/
theorem getElem?_planSemanticVault_ne (state : PassState × SemanticSources)
    (vault : VaultRegistration) (k : SourceKey)
    (hne : ¬ ∃ path, sourceKey B.hash vault.id path = k) :
    (planSemanticVault B manifest config scope world state vault).2[k]? = state.2[k]? := by
  simp only [planSemanticVault]
  split
  · rfl
  · refine (offer_offerVault ..).trans ?_
    rw [vaultFile_eq_none fun path hkey => hne ⟨path, hkey⟩]
    rfl

/-- A vault of which every file is read offers what the ingest of each path offers. -/
theorem getElem?_offerVault {context : VaultContext} {audit : AuditBudget}
    {sources : SemanticSources} {files : VaultWorld}
    (hreads : ∀ file, readsFile B vault manifest context
      (auditedKeys B vault files manifest context audit) file = true) (path : Str)
    (hnone : sources[sourceKey B.hash vault.id path]? = none) :
    (offerVault B manifest context vault files audit sources)[sourceKey B.hash vault.id path]? =
      (files.files.find? fun file => file.relativePath = path).bind fun file =>
        semanticSource B context (ingestFile B vault file (files.read path)) := by
  refine (offer_offerVault ..).trans ?_
  rw [vaultFile_sourceKey]
  cases hfind : files.files.find? fun file => file.relativePath = path with
  | none => exact hnone
  | some file =>
    obtain rfl : file.relativePath = path := by simpa using find?_some hfind
    rw [filter_some_pos (hreads file), SemanticSources.offer, hnone]
    exact or_none

/-- What a complete pass offers at a key of a registered vault. -/
theorem getElem?_semanticSources (hpass : CompletePass config world)
    (hvault : vault ∈ config.vaults) (path : Str) :
    (semanticSources B manifest config scope auditCursor world)[sourceKey B.hash vault.id path]? =
      ((world.vault vault).files.find? fun file => file.relativePath = path).bind fun file =>
        semanticSource B (desktopContext B config scope world vault)
          (ingestFile B vault file ((world.vault vault).read path)) := by
  obtain ⟨before, hbefore, hafter⟩ := foldl_eq_of_footprint
    (planSemanticVault B manifest config scope world)
    (fun state k => state.2[k]?)
    (fun vault k => ∃ path, sourceKey B.hash vault.id path = k)
    getElem?_planSemanticVault_ne config.vaults (config.vaults_disjoint B.hash)
    (desktopStart manifest config scope auditCursor, ∅) (sourceKey B.hash vault.id path) vault
    hvault ⟨path, rfl⟩
  refine hafter.trans ?_
  simp only [planSemanticVault, hpass.available vault hvault, Bool.not_true, Bool.false_eq_true,
    if_false]
  refine getElem?_offerVault (fun file => readsFile_of_strictHash hpass.strictHash file) path ?_
  exact hbefore.trans (by simp)

end Offers

/-! ## §7 What a complete pass leaves -/

variable (B) in
/-- The store holds of a source what the manifest records of it: nothing without chunks, and
otherwise the identity of its row with one vector for each chunk of its documents. -/
structure SemanticStore.Mirrors (store : SemanticStore) (key : SourceKey)
    (source : Option ManifestFile × List Document) : Prop where
  holds_iff : store.Holds key ↔ ∃ row, source.1 = some row ∧ 0 < row.chunkCount
  sourceHash : ∀ row, source.1 = some row → 0 < row.chunkCount →
    store.sourceHash key = some (B.embeddingSourceIdentity row.contentHash row.format)
  vectors : ∀ row, source.1 = some row → 0 < row.chunkCount → ∀ chunkId,
    (store.vectors key chunkId).length =
      if chunkId ∈ source.2.map Document.chunkId then 1 else 0

variable (B) in
/-- The source is enumerated, and its read fails. -/
def TransientRead (config : Config) (world : PassWorld) (key : SourceKey) : Prop :=
  ∃ vault ∈ config.vaults, ∃ file ∈ (world.vault vault).files,
    key = sourceKey B.hash vault.id file.relativePath ∧
    (ingestFile B vault file ((world.vault vault).read file.relativePath)).kind = .transientError

variable (B) in
/-- The source is stored, and is read without chunks and as its row already describes it. -/
def StoredTextless (manager : DesktopIndexManager) (store : SemanticStore) (config : Config)
    (world : PassWorld) (key : SourceKey) : Prop :=
  store.Holds key ∧ ∃ vault ∈ config.vaults, ∃ file ∈ (world.vault vault).files, ∃ next,
    key = sourceKey B.hash vault.id file.relativePath ∧
    RecordsIngest B vault file ((world.vault vault).read file.relativePath) none next ∧
    next.chunkCount = 0 ∧
    planSource B manager.manifest.files[key]? next .whole none = .unchanged

/-- The documents of a recorded source with chunks are those of its row's text. -/
theorem embeddedText_of_recorded {documents : List Document} {row : ManifestFile}
    (h : Recorded B key documents (some row)) (hcount : 0 < row.chunkCount) :
    EmbeddedText B key (B.embeddingSourceIdentity row.contentHash row.format)
      (documents.map Document.chunkId) := by
  obtain ⟨vault, file, stamp, bytes, hkey, hrow, hstamp, rfl⟩ := h
  obtain ⟨_, hread, hhash, -⟩ := hrow.spec.contentHash
  cases hread
  have hformat : stamp.format = file.format := by
    have hregistered := stamp.registered
    rw [hstamp, file.registered, some.injEq] at hregistered
    exact hregistered.symm
  refine ⟨vault, stamp, bytes, by rw [hkey, hstamp], ?_, ?_, ?_⟩
  · intro hnil
    rw [hrow.chunkCount_eq hstamp, FileIngestOutcome.documents, hnil] at hcount
    exact absurd hcount (lt_irrefl 0)
  · rw [hhash, hrow.format, hformat]
  · exact FileIngestOutcome.documents_chunkIds B _

/-- In a sound store a recorded source is mirrored as soon as its identity is right. -/
theorem mirrors_of_identity {store : SemanticStore} {source : Option ManifestFile × List Document}
    (hsound : SoundEntry B key (store.entry key)) (hrecorded : Recorded B key source.2 source.1)
    (hnone : (∀ row, source.1 = some row → row.chunkCount = 0) → (store.entry key).1 = none)
    (hsome : ∀ row, source.1 = some row → 0 < row.chunkCount →
      (store.entry key).1 = some (B.embeddingSourceIdentity row.contentHash row.format)) :
    store.Mirrors B key source := by
  refine ⟨?_, hsome, fun row hrow hcount chunkId => ?_⟩
  · constructor
    · intro hholds
      by_contra hno
      have hzero : ∀ row, source.1 = some row → row.chunkCount = 0 := by
        intro row hrow
        by_contra hpos
        exact hno ⟨row, hrow, Nat.pos_of_ne_zero hpos⟩
      exact SemanticStore.not_holds_iff.mpr (hsound.ids_eq_nil (hnone hzero)) hholds
    · rintro ⟨row, hrow, hcount⟩
      by_contra hno
      have hidentity := hsome row hrow hcount
      rw [SemanticStore.not_holds_iff.mp hno] at hidentity
      cases hidentity
  · rw [SemanticStore.length_vectors]
    rw [hrow] at hrecorded
    have htext := embeddedText_of_recorded hrecorded hcount
    have hidentity := hsome row hrow hcount
    rcases hsound with hempty | ⟨identity, ids, hentry, hstored⟩
    · rw [hempty] at hidentity
      cases hidentity
    · rw [hentry, some.injEq] at hidentity
      subst hidentity
      rw [hentry, hstored.ids_eq htext]

section Pass

variable {manager after : DesktopIndexManager} {config : Config} {scope : ReconcileScope}
  {env : PassEnv} {report : ReconcileReport}

section

variable (hkeyed : manager.manifest.Keyed B)
  (h : manager.reconcile B config scope env = (after, .ok report))
  (hcomplete : CompletePass config env.world)

include hkeyed h hcomplete

/-- A complete pass at a source of a registered vault, by its fate when every file is read: what is
left of the source, and whether the source is deleted. -/
theorem fate_completePass {vault : VaultRegistration} (hvault : vault ∈ config.vaults)
    (path : Str) :
    let key := sourceKey B.hash vault.id path
    let row := manager.manifest.files[key]?
    let context := desktopContext B config scope env.world vault
    let view := (sourceFate B context vault (env.world.vault vault) (fun _ => true) row path).apply
      B context row (KeyView.initial row)
    let plan := (planDesktop B manager.manifest config scope manager.auditCursor env.world).plan
    after.source key =
        (view.row, view.updated B .whole (documentsAt manager.active.documents key)) ∧
      (key ∉ plan.deletesAt .whole ↔ view.deleted .whole = false) := by
  intro key row context view plan
  obtain ⟨audit, hview⟩ := (view_planDesktop scope manager.auditCursor env.world hkeyed hvault
    path).2 (hcomplete.available vault hvault)
  have hreads : readsFile B vault manager.manifest context (auditedKeys B vault
      (env.world.vault vault) manager.manifest context audit) = fun _ => true := by
    funext file
    exact readsFile_of_strictHash hcomplete.strictHash file
  have hplan : plan.view B key = view := by
    refine hview.trans ?_
    rw [hreads]
  rw [← hplan]
  refine ⟨DesktopIndexManager.source_reconcile h key, ?_⟩
  change _ ↔ (plan.deletesAt .whole).contains key = false
  rw [← Std.ExtTreeSet.contains_iff_mem, Bool.not_eq_true]

/-- A source whose read fails is kept, neither offered nor deleted. -/
theorem source_transientRead (hread : TransientRead B config env.world key) :
    after.source key = manager.source key ∧
      (semanticSources B manager.manifest config scope manager.auditCursor env.world)[key]? =
        none ∧
      key ∉ (planDesktop B manager.manifest config scope manager.auditCursor
        env.world).plan.deletesAt .whole := by
  obtain ⟨vault, hvault, file, hfile, rfl, hkind⟩ := hread
  obtain ⟨hsource, hdeletes⟩ := fate_completePass hkeyed h hcomplete hvault file.relativePath
  have hfind := (env.world.vault vault).find?_of_mem hfile
  simp only [sourceFate, hfind, Bool.not_true, Bool.false_eq_true, if_false, hkind, if_true,
    SourceFate.apply, KeyView.updated_initial] at hsource hdeletes
  refine ⟨hsource, ?_, hdeletes.mpr rfl⟩
  rw [getElem?_semanticSources hcomplete hvault, hfind, bind_some, semanticSource, if_pos hkind]

/-- A source of a registered vault after a complete pass, unless its read failed: dropped, or
recorded as it was read. A recorded source without chunks is not offered, and with chunks under its
row's identity. -/
theorem source_completePass {vault : VaultRegistration} (hvault : vault ∈ config.vaults)
    (path : Str) (hread : ¬ TransientRead B config env.world (sourceKey B.hash vault.id path)) :
    let key := sourceKey B.hash vault.id path
    let plan := (planDesktop B manager.manifest config scope manager.auditCursor env.world).plan
    let offer := (semanticSources B manager.manifest config scope manager.auditCursor
      env.world)[key]?
    (after.source key).1 = none ∨
    ∃ file ∈ (env.world.vault vault).files, file.relativePath = path ∧ ∃ next,
      RecordsIngest B vault file ((env.world.vault vault).read path) none next ∧
      (after.source key).1 = some next ∧
      (next.chunkCount = 0 → offer = none ∧ (key ∉ plan.deletesAt .whole →
        planSource B manager.manifest.files[key]? next .whole none = .unchanged)) ∧
      (0 < next.chunkCount → ∃ source, offer = some source ∧
        source.identity = B.embeddingSourceIdentity next.contentHash next.format) := by
  intro key plan offer
  obtain ⟨hsource, hdeletes⟩ := fate_completePass hkeyed h hcomplete hvault path
  have hoffer : offer = _ := getElem?_semanticSources hcomplete hvault path
  -- a source that is not recorded now is dropped, whatever was recorded before
  have hmissing : ((missingFate (env.world.vault vault).completeness.mayInferDeletions
      manager.manifest.files[key]?).apply B (desktopContext B config scope env.world vault)
        manager.manifest.files[key]? (KeyView.initial manager.manifest.files[key]?)).row =
      none := by
    rw [hcomplete.complete vault hvault]
    cases manager.manifest.files[key]? with
    | none => rfl
    | some row =>
      simp [missingFate, EnumerationCompleteness.mayInferDeletions, SourceFate.apply,
        KeyView.foldl_delete, KeyView.setRow]
  unfold sourceFate at hsource hdeletes
  cases hfind : (env.world.vault vault).files.find? fun file => file.relativePath = path with
  | none =>
    left
    simp only [hfind] at hsource
    rw [hsource]
    exact hmissing
  | some file =>
    have hfile := mem_of_find?_eq_some hfind
    have hpath : file.relativePath = path := by simpa using find?_some hfind
    have hkind : (ingestFile B vault file ((env.world.vault vault).read path)).kind ≠
        .transientError := by
      intro hkind
      exact hread ⟨vault, hvault, file, hfile, by rw [hpath], by rw [hpath]; exact hkind⟩
    simp only [hfind, Bool.not_true, Bool.false_eq_true, hkind, if_false] at hsource hdeletes
    simp only [hfind, bind_some, semanticSource, hkind, if_false] at hoffer
    cases hrow : ManifestFile.fromOutcome B
        (ingestFile B vault file ((env.world.vault vault).read path))
        (desktopContext B config scope env.world vault).fingerprint
        (desktopContext B config scope env.world vault).resource with
    | none =>
      left
      simp only [hrow] at hsource
      rw [hsource]
      exact hmissing
    | some entry =>
      right
      obtain ⟨_, next⟩ := entry
      obtain ⟨-, hrecords⟩ := fromOutcome_ingestFile hrow
      simp only [hrow] at hsource hdeletes hoffer
      have hcount : next.chunkCount = (ingestFile B vault file
        ((env.world.vault vault).read path)).chunks.length := hrecords.spec.chunkCount
      refine ⟨file, hfile, hpath, next, hrecords, ?_, fun hzero => ?_, fun hpos => ?_⟩
      · rw [hsource]
        simp only [SourceFate.apply, KeyView.reconcile]
        split <;> rfl
      · have hchunks : (ingestFile B vault file
            ((env.world.vault vault).read path)).chunks = [] := by
          simpa using hcount.symm.trans hzero
        refine ⟨by rw [hoffer, hchunks]; rfl, fun hkept => ?_⟩
        have hkept := hdeletes.mp hkept
        simp only [SourceFate.apply, KeyView.reconcile] at hkept
        cases hplan : planSource B manager.manifest.files[key]? next .whole none with
        | unchanged => rfl
        | reingest reason =>
          -- a source that is ingested again is deleted first
          have hscope : (desktopContext B config scope env.world vault).reconcileScope
            manager.manifest.files[key]? = none := rfl
          have hwhole : (desktopContext B config scope env.world vault).scope = .whole := rfl
          rw [hscope, hwhole, hplan] at hkept
          simp [KeyView.setRow, KeyView.add, KeyView.delete] at hkept
      · have hchunks : (ingestFile B vault file
            ((env.world.vault vault).read path)).chunks.isEmpty = false := by
          rw [isEmpty_eq_false_iff, ← length_pos_iff]
          omega
        rw [hchunks] at hoffer
        exact ⟨_, hoffer, rfl⟩

end

/-- **Convergence of the semantic store.** After any run and a complete pass without semantic
warnings, the store mirrors the manifest at every source, except where the read failed, which keeps
what it had, and at a stored source that has no text and no change to report. -/
theorem semantic_converges {store : SemanticStore} {host : SemanticHost}
    (hrun : SemanticRun B manager store)
    (h : manager.reconcile B config .full env = (after, .ok report))
    (hcomplete : CompletePass config env.world)
    (hquiet : (semanticPass B manager config .full env.world (some host) store).2 = []) :
    let left := (semanticPass B manager config .full env.world (some host) store).1
    (∀ key, TransientRead B config env.world key → manager.manifest.files[key]?.isSome = true →
      after.source key = manager.source key ∧ left.entry key = store.entry key) ∧
    ∀ key, (TransientRead B config env.world key → manager.manifest.files[key]? = none) →
      ¬ StoredTextless B manager store config env.world key →
      left.Mirrors B key (after.source key) := by
  intro left
  obtain ⟨hrecorded, -, hsound⟩ := recorded_and_sound_of_run hrun
  have hafter := hrecorded.reconcile h
  have hleft : left.Sound B := hsound.semanticPass _ _ _ _ _
  set plan := (planDesktop B manager.manifest config .full manager.auditCursor env.world).plan
    with hplan
  set sources := semanticSources B manager.manifest config .full manager.auditCursor env.world
    with hsources
  -- what is kept is what the pass leaves recorded
  have hkeep : ∀ key, plan.nextManifest.files.contains key = (after.source key).1.isSome := by
    intro key
    rw [DesktopIndexManager.source_reconcile h key, Std.ExtTreeMap.contains_eq_isSome_getElem?]
    rfl
  have hentry : ∀ key,
      ((after.source key).1 = none → (left.entry key).1 = none) ∧
      ((after.source key).1.isSome = true → left.entry key =
        match sources[key]? with
        | some source => source.entryAfter (store.entry key)
        | none => if key ∈ plan.deletesAt .whole then (none, []) else store.entry key) := by
    intro key
    obtain ⟨hdropped, hkept⟩ := entry_semanticUpdate hquiet key
    rw [hkeep] at hdropped hkept
    exact ⟨fun hnone => hdropped (by rw [hnone]; rfl), hkept⟩
  have hdropped : ∀ key, (after.source key).1 = none → left.Mirrors B key (after.source key) := by
    intro key hnone
    refine mirrors_of_identity (hleft key) (hafter key) (fun _ => (hentry key).1 hnone) ?_
    intro row hrow
    rw [hnone] at hrow
    cases hrow
  constructor
  · intro key hread hsome
    obtain ⟨hsame, hoffer, hdeletes⟩ := source_transientRead hrecorded.keyed h hcomplete hread
    refine ⟨hsame, ?_⟩
    rw [(hentry key).2 (by rw [hsame]; exact hsome)]
    rw [← hsources] at hoffer
    rw [hoffer, if_neg hdeletes]
  · intro key htransient htextless
    by_cases hread : TransientRead B config env.world key
    · -- nothing was recorded, and nothing is
      obtain ⟨hsame, -, -⟩ := source_transientRead hrecorded.keyed h hcomplete hread
      refine hdropped key ?_
      rw [hsame]
      exact htransient hread
    by_cases hown : ∃ vault ∈ config.vaults, ∃ path, key = sourceKey B.hash vault.id path
    · obtain ⟨vault, hvault, path, rfl⟩ := hown
      rcases source_completePass hrecorded.keyed h hcomplete hvault path hread with
        hnone | ⟨file, hfile, rfl, next, hrecords, hrow, hzero, hpos⟩
      · exact hdropped _ hnone
      · have hsome := (hentry _).2 (by rw [hrow]; rfl)
        rw [← hsources] at hzero hpos
        refine mirrors_of_identity (hleft _) (hafter _) (fun hcount => ?_) ?_
        · -- without chunks nothing was offered: deleted, or not stored to begin with
          obtain ⟨hoffer, hunchanged⟩ := hzero (hcount next hrow)
          rw [hsome, hoffer]
          by_cases hdeletes : sourceKey B.hash vault.id file.relativePath ∈ plan.deletesAt .whole
          · rw [if_pos hdeletes]
          · rw [if_neg hdeletes]
            have hempty := SemanticStore.not_holds_iff.mp fun hholds => htextless
              ⟨hholds, vault, hvault, file, hfile, next, rfl, hrecords, hcount next hrow,
                hunchanged hdeletes⟩
            rw [hempty]
        · intro row hrow' hcount
          rw [hrow, some.injEq] at hrow'
          subst hrow'
          obtain ⟨source, hoffer, hidentity⟩ := hpos hcount
          rw [hsome, hoffer]
          simp only [SemanticSource.entryAfter, ← hidentity]
          split
          · assumption
          · rfl
    · refine hdropped key ?_
      rw [DesktopIndexManager.source_reconcile_unregistered hrecorded.keyed h]
      intro vault hvault path hpath
      exact hown ⟨vault, hvault, path, hpath.symm⟩

end Pass

/-! ## §8 A note whose read fails -/

/-- One dimension, one vector for every text, and no faults. -/
def unitHost : SemanticHost where
  embedPassages _ texts := .ok (texts.map fun _ => [⟨0⟩])
  fault _ := none
  embedPassages_length h := by
    cases h
    rw [length_map]

def unitStore : SemanticStore := SemanticStore.new ⟨[], 1⟩

lemma noteManager_semanticRun : SemanticRun Build.plain noteManager unitStore := by
  have hbuild : buildDesktopIndex Build.plain noteConfig (noteEnv 0) = .ok noteGeneration :=
    Except.eq_ok_value _
  exact .opened _ hbuild (Except.eq_ok_value _)

lemma noteWorld_complete (mtime : ℕ) : CompletePass noteConfig (noteWorld mtime) where
  strictHash := rfl
  available _ _ := rfl
  complete _ _ := rfl

/-- The general result at the touched note. -/
theorem touchedPass_mirrored :
    (semanticPass Build.plain noteManager noteConfig .full (noteWorld 1) (some unitHost)
      unitStore).2 = [] ∧
    ∀ key, (TransientRead Build.plain noteConfig (noteWorld 1) key →
        noteManager.manifest.files[key]? = none) →
      ¬ StoredTextless Build.plain noteManager unitStore noteConfig (noteWorld 1) key →
      (semanticPass Build.plain noteManager noteConfig .full (noteWorld 1) (some unitHost)
        unitStore).1.Mirrors Build.plain key (touchedPass.1.source key) := by
  have hquiet : (semanticPass Build.plain noteManager noteConfig .full (noteWorld 1)
      (some unitHost) unitStore).2 = [] := by decide +kernel
  exact ⟨hquiet, (semantic_converges noteManager_semanticRun touchedPass_eq (noteWorld_complete 1)
    hquiet).2⟩

/-- The note is there and cannot be read. -/
def unreadableWorld : PassWorld where
  vault vault :=
    { (noteWorld 0).vault vault with read := fun _ => .unavailable }
  nowNanos := 0
  semanticHash := none

def unreadableEnv : PassEnv := ⟨unreadableWorld, fun _ => none, "", ['g']⟩

def unreadablePass : DesktopIndexManager × Except Error ReconcileReport :=
  noteManager.reconcile Build.plain noteConfig .full unreadableEnv

lemma unreadablePass_ok : unreadablePass.2.toOption.isSome = true := by decide +kernel

/-- A pass that cannot read a note keeps its row, and has nothing to embed: a note that was never
embedded stays out of the store. -/
theorem unreadablePass_not_mirrored :
    ¬ ∀ (manager after : DesktopIndexManager) (store : SemanticStore) (config : Config)
      (env : PassEnv) (report : ReconcileReport) (host : SemanticHost),
      SemanticRun Build.plain manager store →
      manager.reconcile Build.plain config .full env = (after, .ok report) →
      CompletePass config env.world →
      (semanticPass Build.plain manager config .full env.world (some host) store).2 = [] →
      ∀ key, (semanticPass Build.plain manager config .full env.world (some host)
        store).1.Mirrors Build.plain key (after.source key) := by
  intro hclaim
  have hpass : noteManager.reconcile Build.plain noteConfig .full unreadableEnv =
      (unreadablePass.1, .ok (Except.value unreadablePass.2 unreadablePass_ok)) := by
    rw [← Except.eq_ok_value unreadablePass_ok, Prod.mk.eta, unreadablePass]
  have hcomplete : CompletePass noteConfig unreadableWorld :=
    ⟨rfl, fun _ _ => rfl, fun _ _ => rfl⟩
  let key := sourceKey Build.plain.hash noteVault.id ⟨['a', '.', 'm', 'd'], by decide⟩
  have hmirrors := hclaim noteManager _ unitStore noteConfig unreadableEnv _ unitHost
    noteManager_semanticRun hpass hcomplete (by decide +kernel) key
  have hempty : (semanticPass Build.plain noteManager noteConfig .full unreadableWorld
      (some unitHost) unitStore).1.entry key = (none, []) := by decide +kernel
  have hcount : (unreadablePass.1.source key).1.map ManifestFile.chunkCount = some 1 := by
    decide +kernel
  obtain ⟨row, hrow, hone⟩ := map_eq_some_iff.mp hcount
  exact SemanticStore.not_holds_iff.mpr hempty
    (hmirrors.holds_iff.mpr ⟨row, hrow, by rw [hone]; exact Nat.one_pos⟩)

end Kwiry
