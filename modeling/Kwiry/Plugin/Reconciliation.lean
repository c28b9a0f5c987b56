import Kwiry.Plugin.Fts5Index
import Kwiry.Source

/-!
# Reconciliation

The worker prepares the sources of a batch with the embedded runtime. A preparation that its
structural validator rejects is put in quarantine: it is stored as a skipped row without a content
hash. A plan compares the stored rows with the files of the vault, by their metadata alone: rows
that stay, rows whose content is to be hashed, sources to be prepared again, rows to be removed.

What the adapter reads out of a preparation for search, and its validator, are given.
-/

namespace Kwiry.Plugin

open Foundations

/-! ## §1 Preparations -/

def maxIndexChunks : ℕ := 100000

/-- What a row says of the file it was made from, before what it stores for search. -/
structure SourceMetadata (R : Type) where
  byteLength : ℕ
  mtimeNanos : Text
  rest : R

def decimal (n : ℕ) : Text :=
  Nat.toDigits 10 n

/-- A source with its bytes, or one that is too large to be read. -/
inductive SourceUpsert where
  | bytes (descriptor : SourceDescriptor) (bytes : Bytes)
  | oversized (descriptor : SourceDescriptor)

def SourceUpsert.descriptor : SourceUpsert → SourceDescriptor
  | bytes descriptor _ => descriptor
  | oversized descriptor => descriptor

/-- Why a source was not prepared. A defect is of the one preparation. -/
inductive PreparationFailure where
  | rejected (error : SourcePreparationError)
  | invalidResponse
  | defect (field : String)

/-- The runtime that is embedded, the validator of what it returns, and what is read out of that. -/
structure RustAdapter (R C : Type) where
  build : Build
  sourcePreparationDefect : SourcePreparation → Option String
  frontmatter : SourceUpsert → SourcePreparation → Option PropertyBag
  chunk : PreparedChunk → ChunkPreparation C
  exactAliases : SourceUpsert → SourcePreparation → List Text
  rest : SourceUpsert → SourcePreparation → R
  quarantinedRest : SourceDescriptor → R

namespace RustAdapter

variable {R C : Type} (A : RustAdapter R C)

def requireSourcePreparation (preparation : SourcePreparation) :
    Except PreparationFailure SourcePreparation :=
  match A.sourcePreparationDefect preparation with
  | some field => .error (.defect field)
  | none => .ok preparation

def prepareSourceWithRust (descriptor : SourceDescriptor) (bytes : Bytes) :
    Except PreparationFailure SourcePreparation := do
  let preparation ← (prepareSourceBuffer A.build descriptor bytes).mapError .rejected
  A.requireSourcePreparation preparation

def prepareOversizedSourceWithRust (descriptor : SourceDescriptor) :
    Except PreparationFailure SourcePreparation := do
  let preparation ← (prepareOversizedSource A.build descriptor).mapError .rejected
  let preparation ← A.requireSourcePreparation preparation
  rejectIf (preparation.kind ≠ .skipped ∨ preparation.contentHash ≠ none ∨
    preparation.byteLength ≠ descriptor.byteLength) .invalidResponse
  return preparation

def prepareSourceUpsert : SourceUpsert → Except PreparationFailure SourcePreparation
  | .bytes descriptor bytes => A.prepareSourceWithRust descriptor bytes
  | .oversized descriptor => A.prepareOversizedSourceWithRust descriptor

/-- A preparation as the index takes it. -/
def received (source : SourceUpsert) (preparation : SourcePreparation) :
    PreparedSource (SourceMetadata R) C where
  sourceKey := hexText preparation.sourceKey
  vaultId := preparation.vaultId.chars
  path := preparation.path.chars
  room := preparation.room.map Str.chars
  mtime := preparation.mtime
  format := preparation.format
  coverage := preparation.coverage
  kind := match preparation.kind with
    | .indexed => .indexed
    | .skipped => .skipped
  contentHash := preparation.contentHash.map hexText
  frontmatter := A.frontmatter source preparation
  chunks := preparation.chunks.map A.chunk
  exactAliases := A.exactAliases source preparation
  metadata := ⟨preparation.byteLength, decimal preparation.mtimeNanos, A.rest source preparation⟩

def quarantinedPreparation (source : SourceUpsert) : PreparedSource (SourceMetadata R) C :=
  let descriptor := source.descriptor
  { sourceKey := hexText (sourceKey A.build.hash descriptor.vaultId descriptor.path)
    vaultId := descriptor.vaultId.chars
    path := descriptor.path.chars
    room := descriptor.room.map Str.chars
    mtime := descriptor.mtime
    format := descriptor.format
    coverage := .quarantined
    kind := .skipped
    contentHash := none
    frontmatter := some ⟨[]⟩
    chunks := []
    exactAliases := []
    metadata := ⟨descriptor.byteLength, decimal descriptor.mtimeNanos,
      A.quarantinedRest descriptor⟩ }

/-- Why a batch was not applied. -/
inductive BatchFault where
  | preparation (failure : PreparationFailure)
  | index (fault : IndexFault)

structure PreparedSourceBatch (R C : Type) where
  preparations : List (PreparedSource (SourceMetadata R) C)
  quarantined : List ((Text × Text) × String)
  preparedChunks : ℕ

/-- One source of a batch; a defect puts it in quarantine, any other failure ends the batch. -/
def prepareOne (batch : PreparedSourceBatch R C) (source : SourceUpsert) :
    Except BatchFault (PreparedSourceBatch R C) :=
  match A.prepareSourceUpsert source with
  | .ok preparation => do
    let received := A.received source preparation
    let preparedChunks := batch.preparedChunks +
      if preparation.kind = .indexed then preparation.chunks.length else 0
    rejectIf (maxIndexChunks < preparedChunks) (.index .capacity)
    return { batch with
      preparations := batch.preparations ++ [received]
      preparedChunks := preparedChunks }
  | .error (.defect field) =>
    let identity := (source.descriptor.vaultId.chars, source.descriptor.path.chars)
    .ok { batch with
      preparations := batch.preparations ++ [A.quarantinedPreparation source]
      quarantined := mapSet identity field batch.quarantined }
  | .error failure => .error (.preparation failure)

def prepareSourceBatch (sources : List SourceUpsert) : Except BatchFault (PreparedSourceBatch R C) :=
  sources.foldlM A.prepareOne ⟨[], [], 0⟩

end RustAdapter

/-! ## §2 The plan -/

def maxReconciliationSources : ℕ := 200000

/-- A file of the vault. One that is too large to be indexed is not indexable. -/
structure ReconciliationSourceMetadata where
  path : Text
  byteLength : ℕ
  mtimeNanos : Text
  indexable : Bool

structure ReconciliationPlan where
  unchanged : List Text
  audit : List (Text × Text)
  (refresh remove : List Text)
  (storedSourceCount matchedSourceCount : ℕ)

section Planning

variable {R C : Type} (build : IndexBuild (SourceMetadata R) C)

/-- The rows of a vault, by path. -/
def selectSourcesByVault (tables : Tables (SourceMetadata R) C) (vaultId : Text) (limit : ℕ) :
    List (StoredSource (SourceMetadata R)) :=
  (sortBy (compareOn StoredSource.path)
    (tables.sources.filter fun source => source.vaultId = vaultId)).take limit

abbrev Inventory (R : Type) := List (Text × StoredSource (SourceMetadata R))

def storeRow (vaultId : Text) (stored : Inventory R) (row : StoredSource (SourceMetadata R)) :
    Except IndexFault (Inventory R) := do
  let source ← parseStoredSource build [row]
  match source with
  | none => .error (.integrity "stored source inventory is invalid")
  | some source =>
    rejectIf (source.vaultId ≠ vaultId ∨ source.path ∈ mapKeys stored)
      (.integrity "stored source inventory is invalid")
    return mapSet source.path source stored

/-- A row that was skipped without a content hash. -/
def wasOversized (previous : StoredSource (SourceMetadata R)) : Bool :=
  previous.outcome = .skipped ∧ previous.contentHash = none

/-- The lists a source may come to. -/
inductive Standing where
  | unchanged
  | audit (contentHash : Text)
  | refresh
  deriving DecidableEq

def standing (source : ReconciliationSourceMetadata) :
    Option (StoredSource (SourceMetadata R)) → Standing
  | none => .refresh
  | some previous =>
    if previous.metadata.byteLength = source.byteLength ∧
        previous.metadata.mtimeNanos = source.mtimeNanos ∧
        wasOversized previous = !source.indexable then
      if wasOversized previous then .unchanged
      else
        match previous.contentHash with
        | some contentHash => .audit contentHash
        | none => .refresh
    else .refresh

/-- The lists in the middle of a plan, and the rows no source has been found for yet. -/
structure Planning (R : Type) where
  stored : Inventory R
  matchedSourceCount : ℕ
  unchanged : List Text
  audit : List (Text × Text)
  refresh : List Text

def planSource (planning : Planning R) (source : ReconciliationSourceMetadata) : Planning R :=
  let previous := planning.stored.lookup source.path
  let planning := { planning with
    stored := mapDelete source.path planning.stored
    matchedSourceCount := planning.matchedSourceCount + if previous.isSome then 1 else 0 }
  match standing source previous with
  | .unchanged => { planning with unchanged := planning.unchanged ++ [source.path] }
  | .audit contentHash => { planning with audit := planning.audit ++ [(source.path, contentHash)] }
  | .refresh => { planning with refresh := planning.refresh ++ [source.path] }

/-- The lists for the rows of a vault. -/
def planSources (stored : Inventory R) (current : List ReconciliationSourceMetadata) :
    ReconciliationPlan :=
  let planning := current.foldl planSource ⟨stored, 0, [], [], []⟩
  { unchanged := planning.unchanged
    audit := planning.audit
    refresh := planning.refresh
    remove := sortBy comparePaths (mapKeys planning.stored)
    storedSourceCount := stored.length
    matchedSourceCount := planning.matchedSourceCount }

def planReconciliation (index : GenerationIndex (SourceMetadata R) C) (vaultId : Text)
    (current : List ReconciliationSourceMetadata) : Except IndexFault ReconciliationPlan := do
  rejectIf (index.closed = true) (.error "FTS5 generation is closed")
  rejectIf (vaultId ≠ index.vaultId) (.integrity "vault identity is invalid")
  let rows := selectSourcesByVault index.tables vaultId (maxReconciliationSources + 1)
  rejectIf (maxReconciliationSources < rows.length) .capacity
  let stored ← rows.foldlM (storeRow build vaultId) []
  return planSources stored current

end Planning

/-! ## §3 Batches -/

structure SourceBatch where
  upserts : List SourceUpsert
  removals : List SourceRemoval
  verifyIntegrity : Bool

variable {R C : Type}

def applyBatch (A : RustAdapter R C) (sqlite : Sqlite (SourceMetadata R) C)
    (build : IndexBuild (SourceMetadata R) C) (index : GenerationIndex (SourceMetadata R) C)
    (batch : SourceBatch) :
    Except RustAdapter.BatchFault (GenerationIndex (SourceMetadata R) C) := do
  let prepared ← A.prepareSourceBatch batch.upserts
  match applySourceChanges sqlite build
    ⟨prepared.preparations, batch.removals, batch.verifyIntegrity⟩ index with
  | (.error fault, _) => .error (.index fault)
  | (.ok (), index) => .ok index

end Kwiry.Plugin
