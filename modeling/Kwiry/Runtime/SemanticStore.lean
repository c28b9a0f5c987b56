import Kwiry.Foundations.Floats
import Kwiry.Ingest

/-!
# The Semantic Store

`semantic.rs`: one embedding a chunk, in a database of three tables. `chunk_map` and
`chunk_vec` are written and deleted row by row together and are one list here; chunk ids are
unique in it, across sources. `source_state` records for each source the identity of the text
it was embedded from.

Every statement of the database may fail and leaves the store as it was: `SemanticHost` says
which do, and answers the embedder's calls.
-/

namespace Kwiry

open Foundations

/-! ## §1 Tables -/

abbrev Embedding := List F32

structure EmbeddingProfile where
  fingerprint : Text
  dimensions : ℕ

/-- A row of `chunk_map` with its vector. -/
structure ChunkRow where
  chunkId : Digest
  sourceKey : SourceKey
  embedding : Embedding

structure SemanticStore where
  fingerprint : Text
  dimensions : ℕ
  sourceState : Std.ExtTreeMap SourceKey Digest
  chunkMap : List ChunkRow
  chunkId_unique : (chunkMap.map ChunkRow.chunkId).Nodup

/-- What an error of the store reads as. -/
def semanticError (message : String) : String := "semantic error: " ++ message

namespace SemanticStore

/-- A fresh store. -/
def new (profile : EmbeddingProfile) : SemanticStore :=
  ⟨profile.fingerprint, profile.dimensions, ∅, [], List.nodup_nil⟩

/-- Opening under a profile: any other fingerprint invalidates every vector. -/
def reopen (store : SemanticStore) (profile : EmbeddingProfile) : SemanticStore :=
  if store.fingerprint = profile.fingerprint then
    { store with dimensions := profile.dimensions }
  else
    new profile

def sourceHash (store : SemanticStore) (key : SourceKey) : Option Digest :=
  store.sourceState[key]?

/-- `delete_source_tx`. -/
def deleteSource (store : SemanticStore) (key : SourceKey) : SemanticStore where
  fingerprint := store.fingerprint
  dimensions := store.dimensions
  sourceState := store.sourceState.erase key
  chunkMap := store.chunkMap.filter fun row => row.sourceKey ≠ key
  chunkId_unique := store.chunkId_unique.sublist (List.filter_sublist.map _)

/-- One vector of a source. The dimension is checked here, the uniqueness by the table. -/
def insertChunk (key : SourceKey) (store : SemanticStore) (chunk : Digest × Embedding) :
    Except String SemanticStore :=
  if chunk.2.length ≠ store.dimensions then
    .error (semanticError ("embedding for " ++ String.ofList (hexText chunk.1) ++ " has " ++
      toString chunk.2.length ++ " dimensions, expected " ++ toString store.dimensions))
  else if h : chunk.1 ∈ store.chunkMap.map ChunkRow.chunkId then
    .error (semanticError "UNIQUE constraint failed: chunk_map.chunk_id")
  else
    .ok {
      fingerprint := store.fingerprint
      dimensions := store.dimensions
      sourceState := store.sourceState
      chunkMap := store.chunkMap ++ [⟨chunk.1, key, chunk.2⟩]
      chunkId_unique := by
        rw [List.map_append, List.nodup_append]
        refine ⟨store.chunkId_unique, List.nodup_singleton _, ?_⟩
        rintro id hid _ hnew rfl
        have hid' : id = chunk.1 := List.mem_singleton.mp hnew
        exact h (hid' ▸ hid) }

section

variable (store : SemanticStore) (key : SourceKey)

/-- Replaces the vectors of a source in one transaction. -/
def replaceSource (contentHash : Digest) (chunks : List (Digest × Embedding)) :
    Except String SemanticStore :=
  let deleted := store.deleteSource key
  chunks.foldlM (insertChunk key)
    { deleted with sourceState := deleted.sourceState.insert key contentHash }

/-- What the store holds of a source: its identity, and the ids of its vectors. -/
def entry : Option Digest × List Digest :=
  (store.sourceState[key]?,
    (store.chunkMap.filter fun row => row.sourceKey = key).map ChunkRow.chunkId)

/-- The vectors stored for a chunk of a source. -/
def vectors (chunkId : Digest) : List Embedding :=
  (store.chunkMap.filter fun row => row.sourceKey = key && row.chunkId = chunkId).map
    ChunkRow.embedding

/-- Whether any table names a source. -/
def Holds : Prop :=
  key ∈ store.sourceState ∨ ∃ row ∈ store.chunkMap, row.sourceKey = key

end

end SemanticStore

/-! ## §2 Updates -/

/-- What a source offers the store: its identity, and the texts of its chunks. -/
structure SemanticSource where
  identity : Digest
  chunks : List (Digest × Text)

/-- The fallible accesses of a pass to the store. -/
inductive SemanticAccess where
  | sourceHash (key : SourceKey)
  | replaceSource (key : SourceKey)
  | deleteSource (key : SourceKey)
  | scanSources
  | retainSources (key : SourceKey)

/-- What the host contributes to one pass. A pass embeds a source at most once, so a call is named
by its source. -/
structure SemanticHost where
  embedPassages : SourceKey → List Text → Except String (List Embedding)
  fault : SemanticAccess → Option String
  embedPassages_length : ∀ {key texts vectors}, embedPassages key texts = .ok vectors →
    vectors.length = texts.length

def SemanticHost.attempt (host : SemanticHost) (access : SemanticAccess) : Except String Unit :=
  match host.fault access with
  | some message => .error (semanticError message)
  | none => .ok ()

namespace SemanticStore

/-- Embeds a source and replaces its vectors, unless they are of the same identity. -/
def embedAndReplaceSource (host : SemanticHost) (store : SemanticStore)
    (source : SourceKey × SemanticSource) : Except String SemanticStore := do
  host.attempt (.sourceHash source.1)
  if store.sourceHash source.1 = some source.2.identity then
    return store
  else
    let vectors ← host.embedPassages source.1 (source.2.chunks.map Prod.snd)
    host.attempt (.replaceSource source.1)
    store.replaceSource source.1 source.2.identity ((source.2.chunks.map Prod.fst).zip vectors)

/-- The deletion of a source the index no longer holds. -/
def deleteIndexSource (host : SemanticHost) (store : SemanticStore) (key : SourceKey) :
    Except String SemanticStore := do
  host.attempt (.deleteSource key)
  return store.deleteSource key

/-- Deletes stale sources one by one, up to the first that fails. -/
def deleteStale (host : SemanticHost) :
    List SourceKey → SemanticStore → SemanticStore × Except String Unit
  | [], store => (store, .ok ())
  | key :: rest, store =>
    match host.attempt (.retainSources key) with
    | .error error => (store, .error error)
    | .ok () => deleteStale host rest (store.deleteSource key)

/-- Removes the sources that are not to be kept. -/
def retainSources (host : SemanticHost) (keep : SourceKey → Bool) (store : SemanticStore) :
    SemanticStore × Except String Unit :=
  match host.attempt .scanSources with
  | .error error => (store, .error error)
  | .ok () => deleteStale host (store.sourceState.keys.filter fun key => !keep key) store

end SemanticStore

/-! ## §3 Updates at one key -/

namespace SemanticStore

open List

variable {store store' : SemanticStore} {host : SemanticHost} {key k : SourceKey}

@[simp] lemma entry_new (profile : EmbeddingProfile) (k : SourceKey) :
    (new profile).entry k = (none, []) := by
  simp [entry, new]

lemma entry_reopen (store : SemanticStore) (profile : EmbeddingProfile) (k : SourceKey) :
    (store.reopen profile).entry k = store.entry k ∨
      (store.reopen profile).entry k = (none, []) := by
  unfold reopen
  split
  · exact .inl rfl
  · exact .inr (entry_new profile k)

lemma entry_deleteSource :
    (store.deleteSource key).entry k = if key = k then (none, []) else store.entry k := by
  split
  · rename_i hkey
    subst hkey
    simp [entry, deleteSource]
  · rename_i hne
    have hrows : ∀ row ∈ store.chunkMap.filter (fun row => row.sourceKey = k),
        row.sourceKey ≠ key := by
      intro row hrow heq
      have hk : row.sourceKey = k := by simpa using (mem_filter.mp hrow).2
      exact hne (heq.symm.trans hk)
    simp only [entry, deleteSource, Std.ExtTreeMap.getElem?_erase,
      Std.LawfulEqCmp.compare_eq_iff_eq, if_neg hne, Prod.mk.injEq, true_and]
    rw [filter_comm, filter_eq_self.mpr]
    simpa using hrows

lemma entry_insertChunk {chunk : Digest × Embedding}
    (h : insertChunk key store chunk = .ok store') :
    store'.entry k = ((store.entry k).1,
      (store.entry k).2 ++ if key = k then [chunk.1] else []) := by
  unfold insertChunk at h
  split at h
  · cases h
  split at h
  · cases h
  · cases h
    simp only [entry, filter_append, map_append, filter_cons, filter_nil]
    by_cases hk : key = k <;> simp [hk]

lemma entry_insertChunks {chunks : List (Digest × Embedding)}
    (h : chunks.foldlM (insertChunk key) store = .ok store') :
    store'.entry k = ((store.entry k).1,
      (store.entry k).2 ++ if key = k then chunks.map Prod.fst else []) := by
  induction chunks generalizing store with
  | nil =>
    cases h
    simp
  | cons chunk rest ih =>
    obtain ⟨middle, hchunk, hrest⟩ := foldlM_cons_ok _ h
    rw [ih hrest, entry_insertChunk hchunk]
    by_cases hk : key = k <;> simp [hk]

/-- A replaced source has the new identity and the new ids; the others are as they were. -/
theorem entry_replaceSource {contentHash : Digest} {chunks : List (Digest × Embedding)}
    (h : store.replaceSource key contentHash chunks = .ok store') :
    store'.entry k =
      if key = k then (some contentHash, chunks.map Prod.fst) else store.entry k := by
  rw [entry_insertChunks h]
  have hstate : ∀ (start : SemanticStore) (hash : Digest),
      SemanticStore.entry { start with sourceState := start.sourceState.insert key hash } k =
        (if key = k then some hash else (start.entry k).1, (start.entry k).2) := by
    intro start hash
    simp [entry, Std.ExtTreeMap.getElem?_insert]
  rw [hstate, entry_deleteSource]
  split <;> simp

/-- An offered source that was taken: reused when the identity is stored, and written otherwise. -/
theorem entry_embedAndReplaceSource {source : SourceKey × SemanticSource}
    (h : store.embedAndReplaceSource host source = .ok store') :
    store'.entry k =
      if source.1 = k ∧ (store.entry k).1 ≠ some source.2.identity then
        (some source.2.identity, source.2.chunks.map Prod.fst)
      else store.entry k := by
  unfold embedAndReplaceSource at h
  obtain ⟨-, h⟩ := bind_unit_ok_iff.mp h
  split at h
  · rename_i hreused
    cases h
    rw [if_neg]
    rintro ⟨rfl, hother⟩
    exact hother hreused
  · rename_i hother
    obtain ⟨vectors, hembed, h⟩ := bind_ok_iff.mp h
    obtain ⟨-, h⟩ := bind_unit_ok_iff.mp h
    have hlength : vectors.length = (source.2.chunks.map Prod.fst).length := by
      rw [host.embedPassages_length hembed, length_map, length_map]
    rw [entry_replaceSource h, map_fst_zip hlength.ge]
    by_cases hk : source.1 = k
    · subst hk
      rw [if_pos rfl, if_pos ⟨rfl, hother⟩]
    · rw [if_neg hk, if_neg (fun hboth => hk hboth.1)]

lemma entry_deleteIndexSource (h : store.deleteIndexSource host key = .ok store') :
    store'.entry k = if key = k then (none, []) else store.entry k := by
  obtain ⟨-, h⟩ := bind_unit_ok_iff.mp h
  cases h
  exact entry_deleteSource

/-- Whatever happens, stale deletions leave a key alone or empty it. -/
theorem entry_deleteStale (keys : List SourceKey) (store : SemanticStore) (k : SourceKey) :
    (deleteStale host keys store).1.entry k = store.entry k ∨
      (k ∈ keys ∧ (deleteStale host keys store).1.entry k = (none, [])) := by
  induction keys generalizing store with
  | nil => exact .inl rfl
  | cons key rest ih =>
    unfold deleteStale
    split
    · exact .inl rfl
    · rcases ih (store.deleteSource key) with hsame | ⟨hmem, hgone⟩
      · rw [hsame, entry_deleteSource]
        split
        · rename_i hk
          exact .inr ⟨hk ▸ mem_cons_self, rfl⟩
        · exact .inl rfl
      · exact .inr ⟨mem_cons_of_mem _ hmem, hgone⟩

/-- Stale deletions that all succeed empty every stale key. -/
theorem entry_deleteStale_ok {keys : List SourceKey}
    (h : (deleteStale host keys store).2 = .ok ()) :
    (deleteStale host keys store).1.entry k =
      if k ∈ keys then (none, []) else store.entry k := by
  induction keys generalizing store with
  | nil => simp [deleteStale]
  | cons key rest ih =>
    unfold deleteStale at h ⊢
    split at h
    · cases h
    · rw [ih h, entry_deleteSource]
      by_cases hk : key = k
      · simp [hk]
      · simp [hk, Ne.symm hk]

lemma entry_retainSources (host : SemanticHost) (keep : SourceKey → Bool)
    (store : SemanticStore) (k : SourceKey) :
    (retainSources host keep store).1.entry k = store.entry k ∨
      (retainSources host keep store).1.entry k = (none, []) := by
  unfold retainSources
  split
  · exact .inl rfl
  · exact (entry_deleteStale _ store k).imp_right And.right

/-- A cleanup that succeeds empties the recorded sources that are not kept. -/
theorem entry_retainSources_ok {keep : SourceKey → Bool}
    (h : (retainSources host keep store).2 = .ok ()) :
    (retainSources host keep store).1.entry k =
      if keep k = false ∧ k ∈ store.sourceState then (none, []) else store.entry k := by
  unfold retainSources at h ⊢
  split at h
  · cases h
  · rw [entry_deleteStale_ok h]
    simp [and_comm]

/-! ## §4 Reading entries -/

lemma mem_sourceState_iff : k ∈ store.sourceState ↔ (store.entry k).1 ≠ none := by
  rw [Std.ExtTreeMap.mem_iff_isSome_getElem?, Option.isSome_iff_ne_none]
  rfl

lemma not_holds_iff : ¬ store.Holds k ↔ store.entry k = (none, []) := by
  rw [Holds, not_or, mem_sourceState_iff, not_not, Prod.ext_iff]
  refine and_congr_right fun _ => ?_
  simp [entry, filter_eq_nil_iff]

lemma length_vectors (store : SemanticStore) (key : SourceKey) (chunkId : Digest) :
    (store.vectors key chunkId).length = if chunkId ∈ (store.entry key).2 then 1 else 0 := by
  have hnodup : ((store.entry key).2).Nodup :=
    store.chunkId_unique.sublist (filter_sublist.map _)
  rw [← hnodup.count]
  simp only [vectors, entry, length_map, count, countP_map]
  rw [countP_eq_length_filter, filter_filter]
  congr 1
  refine filter_congr fun row _ => ?_
  rw [Bool.eq_iff_iff]
  simp [and_comm]

end SemanticStore

end Kwiry
