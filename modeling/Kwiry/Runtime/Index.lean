import Kwiry.Runtime.Observe

/-!
# Index Updates and the Serving Runtime

What both index managers do after planning: the update of one index by source key, the
interruptible steps of a publication, and the runtime the published index is served by.

An index is the list of its live documents. Deletion removes every document of a key that
was there before; additions come after.
-/

namespace Kwiry

open Foundations

/-! ## §1 Faults -/

/-- The host operations that can fail after planning. -/
inductive FaultPoint where
  | markSynced | createCandidate | openCandidate | readPartitions
  | openPartition (resource : ResourceKey)
  | ensurePartition (resource : ResourceKey)
  | updateIndex (scope : PartitionScope)
  | saveLayout | saveManifest
  | publish | pointerWritten
  | reopen | sourceKeyField
  deriving DecidableEq

/-- Which operations fail in a pass, and with what error. -/
abbrev PassFaults := FaultPoint → Option Error

/-- One fallible host operation. -/
def PassFaults.attempt (faults : PassFaults) (point : FaultPoint) : Except Error Unit :=
  match faults point with
  | some error => .error error
  | none => .ok ()

/-! ## §2 Index updates -/

variable (B : Build)

/-- A chunk may only enter the partition it is classified under. -/
def matchesResource (resource : ResourceKey) (chunk : Chunk) : Bool :=
  chunk.vaultId = resource.vaultId && chunk.room = some resource.roomId

def addChunk (expectedResource : Option ResourceKey) (documents : List Document)
    (planned : PlannedChunk) : Except Error (List Document) :=
  if expectedResource.any fun resource => !matchesResource resource planned.1.chunk then
    .error (.state ("chunk " ++ hexDigest planned.1.chunk.chunkId ++
      " does not match its resource partition"))
  else
    .ok (documents ++ [chunkDocument B planned.1 planned.2])

def applyIndexUpdates (documents : List Document) (deletes : Std.ExtTreeSet SourceKey)
    (additions : List PlannedChunk) (expectedResource : Option ResourceKey) :
    Except Error (List Document) :=
  if deletes.isEmpty && additions.isEmpty then
    .ok documents
  else
    additions.foldlM (addChunk B expectedResource)
      (documents.filter fun document => !deletes.contains document.sourceKey)

/-- The documents of one key. -/
def documentsAt (documents : List Document) (key : SourceKey) : List Document :=
  documents.filter fun document => document.sourceKey = key

@[simp] lemma documentsAt_append (xs ys : List Document) (key : SourceKey) :
    documentsAt (xs ++ ys) key = documentsAt xs key ++ documentsAt ys key :=
  List.filter_append ..

variable {B}

variable {documents documents' : List Document} {expected : Option ResourceKey}

lemma addChunk_eq {planned : PlannedChunk}
    (h : addChunk B expected documents planned = .ok documents') :
    documents' = documents ++ [chunkDocument B planned.1 planned.2] := by
  unfold addChunk at h
  split at h
  · cases h
  · cases h
    rfl

lemma foldlM_addChunk (additions : List PlannedChunk)
    (h : additions.foldlM (addChunk B expected) documents = .ok documents') :
    documents' = documents ++
      additions.map fun planned => chunkDocument B planned.1 planned.2 := by
  induction additions generalizing documents with
  | nil =>
    cases h
    simp
  | cons planned rest ih =>
    obtain ⟨next, hnext, hrest⟩ := foldlM_cons_ok _ h
    rw [ih hrest, addChunk_eq hnext]
    simp

section

variable {deletes : Std.ExtTreeSet SourceKey} {additions : List PlannedChunk}
  (h : applyIndexUpdates B documents deletes additions expected = .ok documents')

include h

/-- A successful update keeps what it does not delete and appends what it adds. -/
theorem applyIndexUpdates_eq :
    documents' = (documents.filter fun document => !deletes.contains document.sourceKey) ++
      additions.map fun planned => chunkDocument B planned.1 planned.2 := by
  unfold applyIndexUpdates at h
  split at h
  · rename_i hempty
    obtain ⟨hdeletes, hadditions⟩ := Bool.and_eq_true_iff.mp hempty
    cases h
    have hnone : ∀ key, deletes.contains key = false := by
      intro key
      rw [Std.ExtTreeSet.isEmpty_iff] at hdeletes
      simp [hdeletes]
    rw [List.isEmpty_iff.mp hadditions]
    simp [hnone]
  · exact foldlM_addChunk additions h

/-- An update, key by key. -/
theorem documentsAt_applyIndexUpdates (key : SourceKey) :
    documentsAt documents' key =
      (if deletes.contains key then [] else documentsAt documents key) ++
        (additions.filter fun planned => planned.sourceKey B = key).map
          fun planned => chunkDocument B planned.1 planned.2 := by
  rw [applyIndexUpdates_eq h, documentsAt_append]
  congr 1
  · rw [documentsAt, documentsAt, List.filter_filter]
    split
    · rename_i hdeleted
      rw [List.filter_eq_nil_iff]
      intro document _ hboth
      simp only [Bool.and_eq_true, decide_eq_true_eq, Bool.not_eq_true'] at hboth
      rw [hboth.1, hdeleted] at hboth
      exact absurd hboth.2 (by simp)
    · rename_i hkept
      refine List.filter_congr fun document _ => ?_
      by_cases hkey : document.sourceKey = key
      · simp [hkey, Bool.not_eq_true _ ▸ hkept]
      · simp [hkey]
  · rw [documentsAt, List.filter_map]
    rfl

end

lemma perm_of_documentsAt_eq {xs ys : List Document}
    (h : ∀ key, (documentsAt xs key).Perm (documentsAt ys key)) : xs.Perm ys := by
  classical
  rw [List.perm_iff_count]
  intro document
  have hcount : ∀ zs : List Document,
      zs.count document = (documentsAt zs document.sourceKey).count document := by
    intro zs
    rw [documentsAt, List.count_filter (by simp)]
  rw [hcount xs, hcount ys, (h document.sourceKey).count_eq]

/-! ## §3 Serving -/

/-- An opened index: the generation it was opened from and its documents. -/
structure SearchIndex where
  generation : Text
  documents : List Document

/-- The parts of the serving runtime a pass sets. -/
structure SearchRuntime (Index : Type) where
  freshnessBasis : IndexFreshnessBasis
  installed : Option Index

def SearchRuntime.setFreshnessBasis {Index : Type} (runtime : SearchRuntime Index)
    (basis : IndexFreshnessBasis) : SearchRuntime Index :=
  { runtime with freshnessBasis := basis }

def SearchRuntime.install {Index : Type} (runtime : SearchRuntime Index) (index : Index) :
    SearchRuntime Index :=
  { runtime with installed := some index }

structure ReconcileReport where
  (changedSources addedChunks sourceFilesRead sourceBytesRead auditedSources : ℕ)
  auditPending : Bool
  freshnessBasis : IndexFreshnessBasis
  (documents chunks : ℕ)
  lastSync : Option String
  warnings : List IngestWarning
  unavailableVaults : List Str
  generation : Option Text
  manifest : Manifest

/-- The report of a pass that left the given manifest. -/
def passReport (state : PassState) (changedSources addedChunks : ℕ)
    (freshnessBasis : IndexFreshnessBasis) (generation : Option Text) (manifest : Manifest) :
    ReconcileReport where
  changedSources := changedSources
  addedChunks := addedChunks
  sourceFilesRead := state.sourceFilesRead
  sourceBytesRead := state.sourceBytesRead
  auditedSources := state.auditedSources
  auditPending := state.auditPending
  freshnessBasis := freshnessBasis
  documents := manifest.documentCount
  chunks := manifest.chunkCount
  lastSync := manifest.lastSync
  warnings := state.warnings
  unavailableVaults := state.unavailableVaults
  generation := generation
  manifest := manifest

/-- The state a pass plans from. The rolling audit belongs to full passes only. -/
def initialPassState (manifest : Manifest) (config : Config) (scope : ReconcileScope)
    (auditCursor : ℕ) : PassState where
  plan := ReconcilePlan.new manifest
  audit :=
    match scope with
    | .full => ⟨auditCursor, config.auditSourcesPerPass, config.auditBytesPerPass⟩
    | .paths _ => ⟨auditCursor, 0, 0⟩
  warnings := []
  unavailableVaults := []
  sourceFilesRead := 0
  sourceBytesRead := 0
  auditedSources := 0
  auditPending := false

def observationPolicy (config : Config) (world : PassWorld) : ObservationPolicy where
  basis := config.basis
  nowNanos := world.nowNanos
  racyWindowNanos := config.racyWindowMillis * 1000000

end Kwiry
