import Kwiry.Foundations.Bytes
import Kwiry.Foundations.Insertion
import Kwiry.Foundations.Publication

/-!
# Search Worker

The Worker of the plugin: one generation is served, another is staged, and requests are handled one
after the other. What an operation of an index or of the embedded runtimes returns or throws is
given by an outcome for each call, so every operation can fail at every request, and so can the
posting of its response. The fixed error that is posted in its place is taken to arrive. The guards
against network access and the diagnostic traces are left out. Closing an index does not fail.

A generation's index carries a handle, its identity as an object, and each request reports what it
did to which handle.
-/

namespace Kwiry.Plugin

open Foundations

/-! ## §1 Errors -/

inductive WorkerErrorCode where
  | invalidRequest | invalidState | artifactMismatch | rustInitFailed | sqliteInitFailed
  | fts5Unavailable | sourceRejected | explicitQueryUnsupported | invalidFieldControl
  | invalidQuery | invalidQueryPlan | queryExecutionFailed | indexBuilding | indexLimitExceeded
  | integrityFailed | cacheIdentityMismatch | cacheVersionMismatch | cacheDigestMismatch
  | cacheImageInvalid | cacheBlobTooLarge | checkpointKindMismatch | checkpointIdentityMismatch
  | checkpointVersionMismatch | checkpointDigestMismatch | checkpointImageInvalid
  | checkpointBlobTooLarge | workerCrashed | disposed | internalError
  deriving DecidableEq

inductive WorkerErrorStage where
  | protocol | artifact | rust | sqlite | index | query | lifecycle

inductive WorkerErrorCause where
  | sqlite | planRejected | boundsExceeded | internal

structure WorkerError where
  code : WorkerErrorCode
  stage : WorkerErrorStage
  message : String
  retryable : Bool
  failureCause : Option WorkerErrorCause := none

inductive RustAdapterErrorCode where
  | explicitQueryUnsupported | invalidFieldControl | invalidQuery | indexLimitExceeded
  | artifactMismatch | other

/-- What an operation throws. -/
inductive Fault where
  | worker (error : WorkerError)
  | capacity
  | integrity
  | rust (code : RustAdapterErrorCode)
  | cacheVersionMismatch
  | cacheImageInvalid
  | blockVfsUnavailable
  | other (cause : WorkerErrorCause)

def classifyWorkerCause : Fault → WorkerErrorCause
  | .other cause => cause
  | _ => .internal

def fixedWorkerError (code : WorkerErrorCode) (stage : WorkerErrorStage) (message : String)
    (retryable : Bool) : Fault :=
  .worker { code, stage, message, retryable }

def indexCapacityError : Fault :=
  fixedWorkerError .indexLimitExceeded .index "In-plugin index capacity was exceeded." false

def sourceChangeError : Fault → Fault
  | .capacity => indexCapacityError
  | .integrity => fixedWorkerError .integrityFailed .index
      "In-plugin index failed its integrity check." false
  | .rust .indexLimitExceeded => indexCapacityError
  | .rust _ => fixedWorkerError .sourceRejected .rust
      "Portable Rust rejected a source batch." false
  | _ => fixedWorkerError .sourceRejected .index
      "In-plugin index rejected a source batch." false

def rustQueryError : RustAdapterErrorCode → Fault
  | .explicitQueryUnsupported => fixedWorkerError .explicitQueryUnsupported .query
      "This explicit query is unavailable in the in-plugin backend." false
  | .invalidFieldControl => fixedWorkerError .invalidFieldControl .query
      "The query contains an invalid field control." false
  | .invalidQuery => fixedWorkerError .invalidQuery .query
      "The query is invalid or exceeds the supported limits." false
  | _ => fixedWorkerError .invalidQueryPlan .rust
      "Portable Rust returned invalid query data." false

/-! ## §2 Generations -/

abbrev GenerationId := String

/-- Vault id and path, which the source joins into one JSON text. -/
abbrev SourceIdentity := String × String

structure IndexCounters where
  (documents chunks zeroChunkSources sources : ℕ)
  sourceFormatCounts : List (String × ℕ)
  deriving DecidableEq

structure RestoreEvictionReport where
  (staleIdentity disabledFormat : List (String × ℕ))

/-- The rows and counters of an index. -/
structure IndexContents (Rows : Type) where
  rows : Rows
  counters : IndexCounters
  chunkingVersion : Option ℕ

/-- An index that was opened. -/
structure OpenedIndex (Rows : Type) where
  contents : IndexContents Rows
  requiresPreExportCompaction : Bool
  databaseByteLimit : ℕ
  evictions : RestoreEvictionReport

structure Fts5GenerationIndex (Rows : Type) extends OpenedIndex Rows where
  handle : ℕ

structure Generation (Rows : Type) where
  id : GenerationId
  index : Fts5GenerationIndex Rows
  quarantinedSources : List (SourceIdentity × String)

inductive WorkerState where
  | cold | initializing | ready | building | disposed | failed
  deriving DecidableEq

/-- The module's variables, and the handle the next index gets. -/
structure Worker (Rows : Type) where
  state : WorkerState
  sqlite : Bool
  (active staging : Option (Generation Rows))
  (stagingIsInitialCold stagingRestoredCheckpoint stagingPreviewEligible : Bool)
  stagingRevision : ℕ
  usedGenerations : List GenerationId
  lastRequestId : ℕ
  declaredChunkingVersion : Option ℕ
  (initializedVaultId initializedSourcePolicyHash : Option String)
  initializedEnabledFormats : Option (List String)
  nextHandle : ℕ

/-- What is built into the plugin. -/
structure BuildIdentities where
  (pluginId pluginVersion sqliteWasmSha256 rustWasmSha256 : String)

def workerProtocolVersion : ℕ := 16
def cacheSchemaVersion : ℕ := 12
def initialBuildCheckpointRecordVersion : ℕ := 1
def initialBuildCheckpointImageVersion : ℕ := 1
def initialBuildCheckpointRecordKind : String := "initial_build_checkpoint"
def maxExportBlobBytes : ℕ := 384 * 1024 * 1024
def sqliteVersion : String := "3.53.0"

structure RustIdentity where
  (abiVersion sourcePreparationSchemaVersion lexicalQueryPlanSchemaVersion : ℕ)
  (fts5MatchPlanSchemaVersion lexicalV2RankSchemaVersion chunkingVersion : ℕ)

/-- What the calls made for one request return or throw. -/
structure Outcomes (Rows Answer : Type) where
  initialized : Except Fault RustIdentity
  opened : Except Fault (OpenedIndex Rows)
  prepared : Except Fault (List (SourceIdentity × String))
  applied : Except Fault (IndexContents Rows)
  asserted : Bool → Except Fault Unit
  compacted : Except Fault Unit
  measured : ℕ → Except Fault ℕ
  exported : IndexContents Rows → Except Fault Bytes
  digest : Bytes → Except Fault String
  imageWal : Bytes → Except Fault Bool
  planned : IndexContents Rows → Except Fault Answer
  traceStarted : Except Fault Unit
  searched : IndexContents Rows → Except Fault Answer
  posted : Except Fault Unit

namespace Worker

variable {Rows Answer : Type}

def initial : Worker Rows where
  state := .cold
  sqlite := false
  active := none
  staging := none
  stagingIsInitialCold := false
  stagingRestoredCheckpoint := false
  stagingPreviewEligible := false
  stagingRevision := 0
  usedGenerations := []
  lastRequestId := 0
  declaredChunkingVersion := none
  initializedVaultId := none
  initializedSourcePolicyHash := none
  initializedEnabledFormats := none
  nextHandle := 0

/-- What a request answers, the module afterwards, and what was done to the indexes. -/
structure Reply (Rows α : Type) where
  result : Except Fault α
  worker : Worker Rows
  moves : List (Move GenerationId)

def refuse {α : Type} (w : Worker Rows) (fault : Fault) : Reply Rows α :=
  ⟨.error fault, w, []⟩

/-! ## §3 Guards -/

def requireInitialized (w : Worker Rows) : Except Fault Unit :=
  if w.state = .disposed then
    .error (fixedWorkerError .disposed .lifecycle "Worker is disposed." false)
  else if ¬ w.sqlite ∨ (w.state ≠ .ready ∧ w.state ≠ .building) then
    .error (fixedWorkerError .invalidState .lifecycle "Worker is not ready." true)
  else .ok ()

/-- A value that initialization sets. -/
def requireInitializedValue {α : Type} (w : Worker Rows) (message : String) :
    Option α → Except Fault α
  | none => do
    w.requireInitialized
    .error (fixedWorkerError .invalidState .lifecycle message false)
  | some value => do
    w.requireInitialized
    .ok value

def requireInitializedVaultId (w : Worker Rows) : Except Fault String :=
  w.requireInitializedValue "Worker vault is unavailable." w.initializedVaultId

def requireInitializedSourcePolicyHash (w : Worker Rows) : Except Fault String :=
  w.requireInitializedValue "Worker source policy is unavailable." w.initializedSourcePolicyHash

def requireInitializedEnabledFormats (w : Worker Rows) : Except Fault (List String) :=
  w.requireInitializedValue "Worker source format selection is unavailable."
    w.initializedEnabledFormats

def requireStaging (w : Worker Rows) (generation : GenerationId) :
    Except Fault (Generation Rows) := do
  w.requireInitialized
  match w.staging.filter (·.id = generation) with
  | some target => .ok target
  | none => .error (fixedWorkerError .invalidState .index
      "Requested staging generation is not active." true)

def unavailable (message : String) : Fault :=
  fixedWorkerError .invalidState .index message true

/-! ## §4 Results -/

structure BuildResult where
  generation : GenerationId
  (documents chunks zeroChunkSources databaseBytes databaseByteLimit quarantinedSources : ℕ)
  quarantineFields : List String
  sourceFormatCounts : List (String × ℕ)

def generationResult (o : Outcomes Rows Answer) (g : Generation Rows) :
    Except Fault BuildResult := do
  let databaseBytes ← o.measured g.index.handle
  let counters := g.index.contents.counters
  .ok {
    generation := g.id
    documents := counters.documents
    chunks := counters.chunks
    zeroChunkSources := counters.zeroChunkSources
    databaseBytes := databaseBytes
    databaseByteLimit := g.index.databaseByteLimit
    quarantinedSources := g.quarantinedSources.length
    quarantineFields := (g.quarantinedSources.map Prod.snd).dedup.mergeSort (· ≤ ·)
    sourceFormatCounts := counters.sourceFormatCounts }

def updateQuarantinedSources (upserts removals : List SourceIdentity)
    (quarantined : List (SourceIdentity × String)) (g : Generation Rows) : Generation Rows :=
  let kept := (upserts ++ removals).foldl (fun entries source => mapDelete source entries)
    g.quarantinedSources
  { g with
    quarantinedSources := quarantined.foldl (fun entries entry => mapSet entry.1 entry.2 entries)
      kept }

def withContents (g : Generation Rows) (contents : IndexContents Rows) : Generation Rows :=
  { g with index := { g.index with contents := contents } }

/-! ## §5 Staging -/

/-- A newly opened index, under the next handle. -/
def generationOf (w : Worker Rows) (generation : GenerationId) (index : OpenedIndex Rows) :
    Generation Rows :=
  ⟨generation, { index with handle := w.nextHandle }, []⟩

def stage (w : Worker Rows) (target : Generation Rows) : Worker Rows :=
  { w with
    staging := some target
    usedGenerations := target.id :: w.usedGenerations
    state := .building
    nextHandle := w.nextHandle + 1 }

def setStagingFlags (w : Worker Rows) (isInitialCold restoredCheckpoint : Bool) : Worker Rows :=
  { w with
    stagingIsInitialCold := isInitialCold
    stagingRestoredCheckpoint := restoredCheckpoint
    stagingPreviewEligible := false
    stagingRevision := 0 }

def abortStaging (w : Worker Rows) : Worker Rows :=
  { w with
    staging := none
    stagingIsInitialCold := false
    stagingRestoredCheckpoint := false
    stagingPreviewEligible := false
    stagingRevision := 0
    state := .ready }

/-- Fails after staging is aborted. -/
def abortWith {α : Type} (w : Worker Rows) (target : Generation Rows)
    (moves : List (Move GenerationId)) (fault : Fault) : Reply Rows α :=
  ⟨.error fault, w.abortStaging, moves ++ [.dropped target.index.handle]⟩

def beginBuild (o : Outcomes Rows Answer) (generation : GenerationId) (w : Worker Rows) :
    Reply Rows BuildResult :=
  let guards : Except Fault (OpenedIndex Rows) := do
    w.requireInitialized
    if ¬ w.sqlite ∨ w.staging.isSome ∨ generation ∈ w.usedGenerations then
      .error (unavailable "Requested generation is unavailable.")
    else
      let _ ← w.requireInitializedVaultId
      let _ ← w.requireInitializedSourcePolicyHash
      o.opened
  match guards with
  | .error fault => w.refuse fault
  | .ok index =>
    let target := w.generationOf generation index
    ⟨generationResult o target, (w.stage target).setStagingFlags w.active.isNone false,
      [.opened w.nextHandle generation, .read w.nextHandle]⟩

/-- Preparing a batch and applying it to an index. -/
def changeSources (o : Outcomes Rows Answer) :
    Except Fault (List (SourceIdentity × String) × IndexContents Rows) := do
  let quarantined ← o.prepared
  let contents ← o.applied
  .ok (quarantined, contents)

def addSourceBatch (o : Outcomes Rows Answer) (generation : GenerationId)
    (sources : List SourceIdentity) (w : Worker Rows) : Reply Rows BuildResult :=
  match w.requireStaging generation with
  | .error fault => w.refuse fault
  | .ok target =>
    let handle := target.index.handle
    match changeSources o with
    | .error fault => w.abortWith target [] (sourceChangeError fault)
    | .ok (quarantined, contents) =>
      let target := updateQuarantinedSources sources [] quarantined (withContents target contents)
      let w := { w with staging := some target }
      let w := if w.stagingIsInitialCold then
          { w with
            stagingRevision := w.stagingRevision + 1
            stagingPreviewEligible := !w.stagingRestoredCheckpoint &&
              decide (0 < contents.counters.documents) && decide (0 < contents.counters.chunks) }
        else w
      match generationResult o target with
      | .error fault =>
        w.abortWith target [.changed handle, .read handle] (sourceChangeError fault)
      | .ok result => ⟨.ok result, w, [.changed handle, .read handle]⟩

structure SourceChanges where
  generation : GenerationId
  nextGeneration : Option GenerationId
  (upserts removals : List SourceIdentity)

section

variable (o : Outcomes Rows Answer) (request : SourceChanges)

def applyToStaging (w : Worker Rows) : Reply Rows BuildResult :=
  match w.requireStaging request.generation with
  | .error fault => w.refuse fault
  | .ok target =>
    let handle := target.index.handle
    match changeSources o with
    | .error fault => w.abortWith target [] (sourceChangeError fault)
    | .ok (quarantined, contents) =>
      let target := updateQuarantinedSources request.upserts request.removals quarantined
        (withContents target contents)
      let w := { w with
        staging := some target
        stagingRevision := w.stagingRevision + 1
        stagingPreviewEligible := false }
      match generationResult o target with
      | .error fault =>
        w.abortWith target [.changed handle, .read handle] (sourceChangeError fault)
      | .ok result => ⟨.ok result, w, [.changed handle, .read handle]⟩

/-- The active generation is changed in place and takes another id, and only then is the answer
computed. -/
def applyInPlace (next : GenerationId) (w : Worker Rows) : Reply Rows BuildResult :=
  match w.active.filter (·.id = request.generation) with
  | none => w.refuse (unavailable "Requested active generation is unavailable.")
  | some active =>
    if w.staging.isSome ∨ next ∈ w.usedGenerations then
      w.refuse (unavailable "Requested active generation is unavailable.")
    else
      let handle := active.index.handle
      match changeSources o with
      | .error fault => w.refuse (sourceChangeError fault)
      | .ok (quarantined, contents) =>
        let active := { updateQuarantinedSources request.upserts request.removals quarantined
          (withContents active contents) with id := next }
        let w := { w with active := some active, usedGenerations := next :: w.usedGenerations }
        ⟨(generationResult o active).mapError sourceChangeError, w,
          [.changed handle, .renamed handle next, .read handle]⟩

def applySourceChanges (w : Worker Rows) : Reply Rows BuildResult :=
  match w.requireInitialized with
  | .error fault => w.refuse fault
  | .ok () =>
    match request.nextGeneration with
    | none => w.applyToStaging o request
    | some next => w.applyInPlace o request next

end

/-! ## §6 Publication -/

def publish (w : Worker Rows) (target : Generation Rows) : Worker Rows :=
  { w with
    active := some target
    staging := none
    stagingIsInitialCold := false
    stagingRestoredCheckpoint := false
    stagingPreviewEligible := false
    stagingRevision := 0
    state := .ready }

/-- The one barrier between staging and the active generation. -/
def publishStaging (o : Outcomes Rows Answer) (target : Generation Rows) (compact : Bool)
    (w : Worker Rows) : Reply Rows BuildResult :=
  let handle := target.index.handle
  match o.asserted false with
  | .error _ => w.abortWith target [] (fixedWorkerError .integrityFailed .index
      "Staging generation failed its integrity check." false)
  | .ok () =>
    let compaction : List (Move GenerationId) := if compact then [.changed handle] else []
    match if compact then o.compacted else .ok () with
    | .error .capacity => w.abortWith target [.read handle, .changed handle] indexCapacityError
    | .error _ => w.abortWith target [.read handle, .changed handle]
        (fixedWorkerError .integrityFailed .index
          "Staging generation failed its pre-publication compaction." false)
    | .ok () =>
      match o.asserted true with
      | .error _ => w.abortWith target ([.read handle] ++ compaction)
          (fixedWorkerError .integrityFailed .index
            (if compact then "Compacted staging generation failed its integrity check."
              else "Restored staging generation failed its integrity check.") false)
      | .ok () =>
        let moves : List (Move GenerationId) :=
          [.read handle] ++ compaction ++ [.checked handle, .read handle]
        match generationResult o target with
        -- nothing catches what the answer throws: the target stays staged
        | .error fault => ⟨.error fault, w, moves⟩
        | .ok result => ⟨.ok result, w.publish target, moves ++ [.published handle]⟩

def commitBuild (o : Outcomes Rows Answer) (generation : GenerationId) (w : Worker Rows) :
    Reply Rows BuildResult :=
  match w.requireStaging generation with
  | .error fault => w.refuse fault
  | .ok target => w.publishStaging o target true

def abortBuild (o : Outcomes Rows Answer) (generation : GenerationId) (w : Worker Rows) :
    Reply Rows BuildResult :=
  match w.requireStaging generation with
  | .error fault => w.refuse fault
  | .ok target =>
    match generationResult o target with
    | .error fault => ⟨.error fault, w, [.read target.index.handle]⟩
    | .ok result =>
      ⟨.ok result, w.abortStaging, [.read target.index.handle, .dropped target.index.handle]⟩

/-! ## §7 Export -/

structure ExportEnvelope where
  (cacheIdentity sourcePolicyHash : String)
  (protocolVersion cacheSchemaVersion chunkingVersion : ℕ)
  (sqliteVersion sqliteWasmSha256 rustWasmSha256 pluginId pluginVersion : String)
  bytes : Bytes
  blobByteLength : ℕ
  blobSha256 : String

structure ExportGenerationResult where
  generation : GenerationId
  (documents chunks : ℕ)
  envelope : ExportEnvelope

def exportEnvelope (build : BuildIdentities) (cacheIdentity sourcePolicyHash : String)
    (chunkingVersion : ℕ) (bytes : Bytes) (blobSha256 : String) : ExportEnvelope where
  cacheIdentity := cacheIdentity
  sourcePolicyHash := sourcePolicyHash
  protocolVersion := workerProtocolVersion
  cacheSchemaVersion := cacheSchemaVersion
  chunkingVersion := chunkingVersion
  sqliteVersion := sqliteVersion
  sqliteWasmSha256 := build.sqliteWasmSha256
  rustWasmSha256 := build.rustWasmSha256
  pluginId := build.pluginId
  pluginVersion := build.pluginVersion
  bytes := bytes
  blobByteLength := bytes.length
  blobSha256 := blobSha256

def chunkingUnavailable : Fault :=
  unavailable "Portable Rust chunking identity is unavailable."

/-- The image of an index, once its chunks are known to be this build's. -/
def exportImage (o : Outcomes Rows Answer) (index : Fts5GenerationIndex Rows)
    (declared : ℕ) (chunker failed : String) : Except Fault Bytes :=
  if index.contents.chunkingVersion.any (· ≠ declared) then
    .error (fixedWorkerError .integrityFailed .index chunker false)
  else
    match o.exported index.contents with
    | .error .capacity => .error indexCapacityError
    | .error _ => .error (fixedWorkerError .internalError .index failed false)
    | .ok image => .ok image

def exportGeneration (build : BuildIdentities) (o : Outcomes Rows Answer)
    (generation : GenerationId) (cacheIdentity : String) (w : Worker Rows) :
    Reply Rows ExportGenerationResult :=
  match w.requireInitialized with
  | .error fault => w.refuse fault
  | .ok () =>
    match w.active.filter (·.id = generation) with
    | none => w.refuse (unavailable "Requested generation is not the clean active generation.")
    | some target =>
      if ¬ w.sqlite ∨ w.staging.isSome then
        w.refuse (unavailable "Requested generation is not the clean active generation.")
      else
        let handle := target.index.handle
        let compact := target.index.requiresPreExportCompaction
        match w.declaredChunkingVersion with
        | none => w.refuse chunkingUnavailable
        | some declared =>
          let gate : Except Fault Unit := do
            o.asserted false
            if compact then o.compacted else .ok ()
            o.asserted true
          let compaction : List (Move GenerationId) := if compact then [.changed handle] else []
          match gate with
          | .error _ => ⟨.error (fixedWorkerError .integrityFailed .index
              "Active generation failed its pre-export integrity check." false), w,
              .read handle :: compaction⟩
          | .ok () =>
            let result : Except Fault ExportGenerationResult := do
              let image ← exportImage o target.index declared
                "Active generation was chunked by a different chunker."
                "Active generation could not be exported."
              let blobSha256 ← o.digest image
              let sourcePolicyHash ← w.requireInitializedSourcePolicyHash
              .ok {
                generation := target.id
                documents := target.index.contents.counters.documents
                chunks := target.index.contents.counters.chunks
                envelope := exportEnvelope build cacheIdentity sourcePolicyHash declared image
                  blobSha256 }
            ⟨result, w, .read handle :: compaction ++ [.checked handle, .read handle]⟩

def initialBuildCheckpointMagic : Bytes :=
  [0x4b, 0x57, 0x49, 0x52, 0x59, 0x43, 0x50, 0x00]

def initialBuildCheckpointHeaderBytes : ℕ :=
  initialBuildCheckpointMagic.length + 8

def wrapInitialBuildCheckpoint (payload : Bytes) : Except Fault Bytes :=
  if initialBuildCheckpointHeaderBytes + payload.length > maxExportBlobBytes then .error .capacity
  else .ok (initialBuildCheckpointMagic ++ leBytes 4 initialBuildCheckpointImageVersion ++
    leBytes 4 payload.length ++ payload)

def unwrapInitialBuildCheckpoint (bytes : Bytes) : Except Fault Bytes :=
  if bytes.length ≤ initialBuildCheckpointHeaderBytes then .error .cacheImageInvalid
  else if bytes.take 8 ≠ initialBuildCheckpointMagic then .error .cacheImageInvalid
  else if ofLeBytes ((bytes.drop 8).take 4) ≠ initialBuildCheckpointImageVersion then
    .error .cacheImageInvalid
  else
    let payloadByteLength := ofLeBytes ((bytes.drop 12).take 4)
    if payloadByteLength = 0 ∨
        payloadByteLength ≠ bytes.length - initialBuildCheckpointHeaderBytes then
      .error .cacheImageInvalid
    else .ok (bytes.drop initialBuildCheckpointHeaderBytes)

structure InitialBuildCheckpointExportResult where
  built : BuildResult
  recordKind : String
  (checkpointRecordVersion checkpointImageVersion : ℕ)
  cursor : String
  envelope : ExportEnvelope

/-- The staged generation of an initial build, when it is the one named and nothing is active. -/
def initialColdStaging (w : Worker Rows) (generation : GenerationId) : Option (Generation Rows) :=
  if w.active.isSome ∨ ¬ w.stagingIsInitialCold then none
  else w.staging.filter (·.id = generation)

def exportInitialBuildCheckpoint (build : BuildIdentities) (o : Outcomes Rows Answer)
    (generation : GenerationId) (cursor cacheIdentity : String) (w : Worker Rows) :
    Reply Rows InitialBuildCheckpointExportResult :=
  match w.requireInitialized with
  | .error fault => w.refuse fault
  | .ok () =>
    match w.initialColdStaging generation with
    | none => w.refuse
        (unavailable "Requested generation is not an initial-cold staging generation.")
    | some target =>
      if ¬ w.sqlite then
        w.refuse (unavailable "Requested generation is not an initial-cold staging generation.")
      else
        let handle := target.index.handle
        match w.declaredChunkingVersion with
        | none => w.refuse chunkingUnavailable
        | some declared =>
          match (do o.asserted false; o.asserted true : Except Fault Unit) with
          | .error _ => ⟨.error (fixedWorkerError .integrityFailed .index
              "Initial-build checkpoint failed its integrity check." false), w, [.read handle]⟩
          | .ok () =>
            let result : Except Fault InitialBuildCheckpointExportResult := do
              let payload ← exportImage o target.index declared
                "Initial-build checkpoint was chunked by a different chunker."
                "Initial-build checkpoint could not be exported."
              let bytes ← (wrapInitialBuildCheckpoint payload).mapError fun _ =>
                fixedWorkerError .checkpointBlobTooLarge .index
                  "Initial-build checkpoint exceeds the export limit." false
              let blobSha256 ← o.digest bytes
              let built ← generationResult o target
              let sourcePolicyHash ← w.requireInitializedSourcePolicyHash
              .ok {
                built := built
                recordKind := initialBuildCheckpointRecordKind
                checkpointRecordVersion := initialBuildCheckpointRecordVersion
                checkpointImageVersion := initialBuildCheckpointImageVersion
                cursor := cursor
                envelope := exportEnvelope build cacheIdentity sourcePolicyHash declared bytes
                  blobSha256 }
            ⟨result, w, [.read handle, .checked handle, .read handle]⟩

/-! ## §8 Restoring -/

structure RestoreRequest where
  generation : GenerationId
  (expectedCacheIdentity expectedSourcePolicyHash : String)
  envelope : ExportEnvelope

/-- The texts in which the two kinds of restore differ. -/
structure RestoreErrors where
  (identityMismatch versionMismatch blobTooLarge invalidLength digestMismatch invalidImage : Fault)
  (schemaMismatch failedValidation unopened : Fault)

def restoreGenerationErrors : RestoreErrors where
  identityMismatch := fixedWorkerError .cacheIdentityMismatch .index
    "Cached generation belongs to a different identity." false
  versionMismatch := fixedWorkerError .cacheVersionMismatch .index
    "Cached generation is incompatible with this build." false
  blobTooLarge := fixedWorkerError .cacheBlobTooLarge .protocol
    "Cached generation exceeds the restore limit." false
  invalidLength := fixedWorkerError .cacheImageInvalid .index
    "Cached generation has an invalid length." false
  digestMismatch := fixedWorkerError .cacheDigestMismatch .index
    "Cached generation failed digest verification." false
  invalidImage := fixedWorkerError .cacheImageInvalid .index
    "Cached generation is not a valid restorable SQLite image." false
  schemaMismatch := fixedWorkerError .cacheVersionMismatch .index
    "Cached generation schema is incompatible with this build." false
  failedValidation := fixedWorkerError .cacheImageInvalid .index
    "Cached generation failed staged validation." false
  unopened := fixedWorkerError .cacheImageInvalid .index
    "Cached generation could not be opened safely." false

def restoreInitialBuildCheckpointErrors : RestoreErrors where
  identityMismatch := fixedWorkerError .checkpointIdentityMismatch .index
    "Initial-build checkpoint belongs to a different identity." false
  versionMismatch := fixedWorkerError .checkpointVersionMismatch .index
    "Initial-build checkpoint is incompatible with this build." false
  blobTooLarge := fixedWorkerError .checkpointBlobTooLarge .protocol
    "Initial-build checkpoint exceeds the restore limit." false
  invalidLength := fixedWorkerError .checkpointImageInvalid .index
    "Initial-build checkpoint has an invalid length." false
  digestMismatch := fixedWorkerError .checkpointDigestMismatch .index
    "Initial-build checkpoint failed digest verification." false
  invalidImage := fixedWorkerError .checkpointImageInvalid .index
    "Initial-build checkpoint is not a valid staged SQLite image." false
  schemaMismatch := fixedWorkerError .checkpointVersionMismatch .index
    "Initial-build checkpoint schema is incompatible with this build." false
  failedValidation := fixedWorkerError .checkpointImageInvalid .index
    "Initial-build checkpoint failed staged validation." false
  unopened := fixedWorkerError .checkpointImageInvalid .index
    "Initial-build checkpoint could not be opened safely." false

/-- What the outer handler of a restore makes of what is thrown while the image is opened. -/
def RestoreErrors.translate (errors : RestoreErrors) : Fault → Fault
  | .cacheVersionMismatch => errors.schemaMismatch
  | .cacheImageInvalid | .capacity => errors.failedValidation
  | .blockVfsUnavailable => fixedWorkerError .internalError .sqlite
      "Required SQLite restore capability is unavailable." false
  | .worker error => .worker error
  | _ => errors.unopened

/-- Identities, versions, lengths and the digest, in that order; `recordVersions` are the checks
that only checkpoints have. -/
def checkEnvelope (build : BuildIdentities) (o : Outcomes Rows Answer) (errors : RestoreErrors)
    (w : Worker Rows) (recordVersions : Bool) (request : RestoreRequest) : Except Fault Unit := do
  let envelope := request.envelope
  if envelope.cacheIdentity ≠ request.expectedCacheIdentity ∨
      envelope.sourcePolicyHash ≠ request.expectedSourcePolicyHash then
    .error errors.identityMismatch
  let sourcePolicyHash ← w.requireInitializedSourcePolicyHash
  if envelope.sourcePolicyHash ≠ sourcePolicyHash ∨ envelope.pluginId ≠ build.pluginId then
    .error errors.identityMismatch
  if ¬ recordVersions ∨
      envelope.protocolVersion ≠ workerProtocolVersion ∨
      envelope.cacheSchemaVersion ≠ Plugin.cacheSchemaVersion ∨
      w.declaredChunkingVersion ≠ some envelope.chunkingVersion ∨
      envelope.sqliteVersion ≠ Plugin.sqliteVersion ∨
      envelope.sqliteWasmSha256 ≠ build.sqliteWasmSha256 ∨
      envelope.rustWasmSha256 ≠ build.rustWasmSha256 ∨
      envelope.pluginVersion ≠ build.pluginVersion then
    .error errors.versionMismatch
  if maxExportBlobBytes < envelope.bytes.length ∨ maxExportBlobBytes < envelope.blobByteLength then
    .error errors.blobTooLarge
  if envelope.bytes = [] ∨ envelope.blobByteLength ≠ envelope.bytes.length then
    .error errors.invalidLength
  let blobSha256 ← o.digest envelope.bytes
  if blobSha256 ≠ envelope.blobSha256 then .error errors.digestMismatch

/-- An image that needs no write-ahead log. -/
def checkImage (o : Outcomes Rows Answer) (errors : RestoreErrors)
    (unwrap : Bytes → Except Fault Bytes) (bytes : Bytes) : Except Fault Unit :=
  (do
    let payload ← unwrap bytes
    let wal ← o.imageWal payload
    if wal then .error .cacheImageInvalid else .ok () : Except Fault Unit).mapError
      fun _ => errors.invalidImage

def openRestored (o : Outcomes Rows Answer) (errors : RestoreErrors) (w : Worker Rows) :
    Except Fault (OpenedIndex Rows) :=
  (do
    let _ ← w.requireInitializedVaultId
    let _ ← w.requireInitializedSourcePolicyHash
    let _ ← w.requireInitializedEnabledFormats
    o.opened : Except Fault (OpenedIndex Rows)).mapError errors.translate

structure RestoreGenerationResult where
  published : BuildResult
  evictions : RestoreEvictionReport

/-- What the inner handler of `restoreGeneration` makes of a failed publication. -/
def publicationFault : Fault → Fault
  | .worker error =>
    if error.code = .integrityFailed then fixedWorkerError .cacheImageInvalid .index
      "Cached generation failed its publication integrity gate." false
    else .worker error
  | fault => fault

/-- What `restoreGeneration` does before it stages anything. -/
def openGeneration (build : BuildIdentities) (o : Outcomes Rows Answer)
    (request : RestoreRequest) (w : Worker Rows) : Except Fault (OpenedIndex Rows) := do
  w.requireInitialized
  if ¬ w.sqlite ∨ w.declaredChunkingVersion.isNone ∨ w.staging.isSome ∨
      request.generation ∈ w.usedGenerations then
    .error (unavailable "Requested generation is unavailable.")
  checkEnvelope build o restoreGenerationErrors w true request
  checkImage o restoreGenerationErrors .ok request.envelope.bytes
  openRestored o restoreGenerationErrors w

def restoreGeneration (build : BuildIdentities) (o : Outcomes Rows Answer)
    (request : RestoreRequest) (w : Worker Rows) : Reply Rows RestoreGenerationResult :=
  let errors := restoreGenerationErrors
  match w.openGeneration build o request with
  | .error fault => w.refuse fault
  | .ok index =>
    let target := w.generationOf request.generation index
    -- the flags are those of an empty staging
    let reply := (w.stage target).publishStaging o target false
    { result := (reply.result.mapError fun fault => errors.translate (publicationFault fault)).map
        fun published => ⟨published, index.evictions⟩
      worker := reply.worker
      moves := .opened w.nextHandle request.generation :: reply.moves }

structure CheckpointRestoreRequest extends RestoreRequest where
  recordKind : String
  (checkpointRecordVersion checkpointImageVersion : ℕ)
  cursor : String

structure RestoreInitialBuildCheckpointResult where
  built : BuildResult
  (recordKind cursor : String)
  evictions : RestoreEvictionReport

def restoreInitialBuildCheckpoint (build : BuildIdentities) (o : Outcomes Rows Answer)
    (request : CheckpointRestoreRequest) (w : Worker Rows) :
    Reply Rows RestoreInitialBuildCheckpointResult :=
  let errors := restoreInitialBuildCheckpointErrors
  let checks : Except Fault (OpenedIndex Rows) := do
    w.requireInitialized
    if ¬ w.sqlite ∨ w.declaredChunkingVersion.isNone ∨ w.active.isSome ∨ w.staging.isSome ∨
        request.generation ∈ w.usedGenerations then
      .error (unavailable "Requested initial-build checkpoint generation is unavailable.")
    if request.recordKind ≠ initialBuildCheckpointRecordKind then
      .error (fixedWorkerError .checkpointKindMismatch .index
        "Initial-build checkpoint has the wrong record kind." false)
    let recordVersions := decide
      (request.checkpointRecordVersion = initialBuildCheckpointRecordVersion ∧
        request.checkpointImageVersion = initialBuildCheckpointImageVersion)
    checkEnvelope build o errors w recordVersions request.toRestoreRequest
    checkImage o errors unwrapInitialBuildCheckpoint request.envelope.bytes
    openRestored o errors w
  match checks with
  | .error fault => w.refuse fault
  | .ok index =>
    let restored := w.generationOf request.generation index
    match generationResult o restored with
    -- the candidate is closed again before it is staged
    | .error fault => w.refuse (errors.translate fault)
    | .ok built =>
      { result := .ok {
          built := built
          recordKind := initialBuildCheckpointRecordKind
          cursor := request.cursor
          evictions := index.evictions }
        worker := (w.stage restored).setStagingFlags true true
        moves := [.opened w.nextHandle request.generation, .read w.nextHandle] }

/-! ## §9 Reading -/

/-- What a failed reconciliation answers. -/
def reconciliationFault (inventory failed : String) : Fault → Fault
  | .capacity => indexCapacityError
  | .integrity => fixedWorkerError .integrityFailed .index inventory false
  | _ => fixedWorkerError .internalError .index failed false

structure GenerationAnswer (Answer : Type) where
  generation : GenerationId
  answer : Answer

def planReconciliation (o : Outcomes Rows Answer) (generation : GenerationId) (w : Worker Rows) :
    Reply Rows (GenerationAnswer Answer) :=
  match w.requireInitialized with
  | .error fault => w.refuse fault
  | .ok () =>
    match w.active.filter (·.id = generation) with
    | none => w.refuse (unavailable "Requested generation is not the clean active generation.")
    | some target =>
      if w.staging.isSome then
        w.refuse (unavailable "Requested generation is not the clean active generation.")
      else
        ⟨((o.planned target.index.contents).mapError (reconciliationFault
            "Active generation source inventory is invalid."
            "Active generation could not be reconciled.")).map (⟨target.id, ·⟩),
          w, [.read target.index.handle]⟩

def planInitialBuildCheckpointReconciliation (o : Outcomes Rows Answer)
    (generation : GenerationId) (w : Worker Rows) : Reply Rows (GenerationAnswer Answer) :=
  match w.requireInitialized with
  | .error fault => w.refuse fault
  | .ok () =>
    match w.initialColdStaging generation with
    | none => w.refuse
        (unavailable "Requested generation is not a restored initial-build checkpoint.")
    | some target =>
      if ¬ w.stagingRestoredCheckpoint then
        w.refuse (unavailable "Requested generation is not a restored initial-build checkpoint.")
      else
        ⟨((o.planned target.index.contents).mapError (reconciliationFault
            "Initial-build checkpoint source inventory is invalid."
            "Initial-build checkpoint could not be reconciled.")).map (⟨target.id, ·⟩),
          w, [.read target.index.handle]⟩

def searchFault : Fault → Fault
  | .rust code => rustQueryError code
  | fault => .worker {
      code := .queryExecutionFailed
      stage := .query
      message := "In-plugin lexical search could not complete."
      retryable := true
      failureCause := some (classifyWorkerCause fault) }

def search (o : Outcomes Rows Answer) (w : Worker Rows) : Reply Rows (GenerationAnswer Answer) :=
  match w.requireInitialized with
  | .error fault => w.refuse fault
  | .ok () =>
    match w.active with
    | none => w.refuse (fixedWorkerError .indexBuilding .query
        "In-plugin lexical index is not ready." true)
    | some target =>
      let result : Except Fault (GenerationAnswer Answer) := do
        o.traceStarted
        let answer ← (o.searched target.index.contents).mapError searchFault
        .ok ⟨target.id, answer⟩
      ⟨result, w, [.read target.index.handle]⟩

structure StatusResult where
  phase : WorkerState
  searchable : Bool
  (activeGeneration stagingGeneration : Option GenerationId)
  (documents chunks zeroChunkSources activeDatabaseBytes stagingDatabaseBytes databaseByteLimit : ℕ)
  sourceFormatCounts : List (String × ℕ)
  (dirty rebuilding : Bool)

/-- The bytes of a generation's database, none when there is no generation. -/
def measuredBytes (o : Outcomes Rows Answer) : Option (Generation Rows) → Except Fault ℕ
  | none => .ok 0
  | some g => o.measured g.index.handle

def status (o : Outcomes Rows Answer) (defaultDatabaseByteLimit : ℕ)
    (noFormats : List (String × ℕ)) (w : Worker Rows) : Reply Rows StatusResult :=
  if w.state = .disposed then
    ⟨.ok {
      phase := .disposed, searchable := false
      activeGeneration := none, stagingGeneration := none
      documents := 0, chunks := 0, zeroChunkSources := 0
      activeDatabaseBytes := 0, stagingDatabaseBytes := 0
      databaseByteLimit := defaultDatabaseByteLimit
      sourceFormatCounts := noFormats, dirty := true, rebuilding := false }, w, []⟩
  else
    let failed := decide (w.state = .failed)
    let counters := w.active.map (·.index.contents.counters)
    let result : Except Fault StatusResult := do
      let activeDatabaseBytes ← measuredBytes o w.active
      let stagingDatabaseBytes ← measuredBytes o w.staging
      .ok {
        phase := if failed then .failed
          else if w.active.isSome && w.staging.isNone then .ready else .building
        searchable := !failed && w.active.isSome
        activeGeneration := w.active.map (·.id)
        stagingGeneration := w.staging.map (·.id)
        documents := (counters.map (·.documents)).getD 0
        chunks := (counters.map (·.chunks)).getD 0
        zeroChunkSources := (counters.map (·.zeroChunkSources)).getD 0
        activeDatabaseBytes := activeDatabaseBytes
        stagingDatabaseBytes := stagingDatabaseBytes
        databaseByteLimit := ((w.active.map (·.index.databaseByteLimit)).or
          (w.staging.map (·.index.databaseByteLimit))).getD defaultDatabaseByteLimit
        sourceFormatCounts := (counters.map (·.sourceFormatCounts)).getD noFormats
        dirty := w.active.isNone || w.staging.isSome || failed
        rebuilding := w.staging.isSome }
    ⟨result, w, (w.active.toList ++ w.staging.toList).map (.read ·.index.handle)⟩

/-! ## §10 Lifecycle -/

structure InitializeRequest where
  (vaultId sourcePolicyHash : String)
  enabledFormats : List String

def initializeFault : Fault → Fault
  | .worker error => .worker error
  | .rust .artifactMismatch => fixedWorkerError .artifactMismatch .artifact
      "Portable Rust artifact identity mismatch." false
  | .rust _ => fixedWorkerError .rustInitFailed .rust
      "Portable Rust initialization failed." false
  | _ => fixedWorkerError .sqliteInitFailed .sqlite "SQLite initialization failed." false

def initializeWorker (o : Outcomes Rows Answer) (request : InitializeRequest) (w : Worker Rows) :
    Reply Rows RustIdentity :=
  if w.state ≠ .cold then
    w.refuse (fixedWorkerError .invalidState .lifecycle "Worker is already initialized." false)
  else
    match o.initialized with
    | .error fault =>
      ⟨.error (initializeFault fault), { w with
        state := .failed
        sqlite := false
        declaredChunkingVersion := none
        initializedVaultId := none
        initializedSourcePolicyHash := none
        initializedEnabledFormats := none }, []⟩
    | .ok identity =>
      ⟨.ok identity, { w with
        state := .ready
        sqlite := true
        declaredChunkingVersion := some identity.chunkingVersion
        initializedVaultId := some request.vaultId
        initializedSourcePolicyHash := some request.sourcePolicyHash
        initializedEnabledFormats := some request.enabledFormats }, []⟩

def dispose (w : Worker Rows) : Reply Rows Unit :=
  if w.state = .disposed then ⟨.ok (), w, []⟩
  else
    ⟨.ok (), { w with
      staging := none
      active := none
      stagingIsInitialCold := false
      stagingRestoredCheckpoint := false
      stagingPreviewEligible := false
      stagingRevision := 0
      usedGenerations := []
      sqlite := false
      declaredChunkingVersion := none
      initializedVaultId := none
      state := .disposed }, []⟩

end Worker

/-! ## §11 Requests -/

inductive WorkerOperation where
  | initializeWorker (request : Worker.InitializeRequest)
  | beginBuild (generation : GenerationId)
  | addSourceBatch (generation : GenerationId) (sources : List SourceIdentity)
  | applySourceChanges (request : Worker.SourceChanges)
  | commitBuild (generation : GenerationId)
  | abortBuild (generation : GenerationId)
  | exportGeneration (generation : GenerationId) (cacheIdentity : String)
  | restoreGeneration (request : Worker.RestoreRequest)
  | planReconciliation (generation : GenerationId)
  | exportInitialBuildCheckpoint (generation : GenerationId) (cursor cacheIdentity : String)
  | restoreInitialBuildCheckpoint (request : Worker.CheckpointRestoreRequest)
  | planInitialBuildCheckpointReconciliation (generation : GenerationId)
  | search
  | status
  | dispose

structure WorkerRequest where
  id : ℕ
  operation : WorkerOperation

inductive WorkerResult (Answer : Type) where
  | initialized (identity : RustIdentity)
  | built (result : Worker.BuildResult)
  | exported (result : Worker.ExportGenerationResult)
  | restored (result : Worker.RestoreGenerationResult)
  | checkpointExported (result : Worker.InitialBuildCheckpointExportResult)
  | checkpointRestored (result : Worker.RestoreInitialBuildCheckpointResult)
  | answered (result : Worker.GenerationAnswer Answer)
  | status (result : Worker.StatusResult)
  | disposed

/-- What is answered when nothing else can be said. -/
def internalWorkerError : WorkerError where
  code := .internalError
  stage := .lifecycle
  message := "In-plugin search Worker failed."
  retryable := false

/-- Errors of other kinds than the Worker's own are not shown. -/
def workerError : Fault → WorkerError
  | .worker error => error
  | _ => internalWorkerError

namespace Worker

variable {Rows Answer : Type}

def Reply.map {α β : Type} (f : α → β) (reply : Reply Rows α) : Reply Rows β :=
  ⟨reply.result.map f, reply.worker, reply.moves⟩

/-- Constants of the build that answers depend on. -/
structure Environment where
  identities : BuildIdentities
  defaultDatabaseByteLimit : ℕ
  noFormats : List (String × ℕ)

section

variable (env : Environment) (o : Outcomes Rows Answer)

def perform :
    WorkerOperation → Worker Rows → Reply Rows (WorkerResult Answer)
  | .initializeWorker request, w => (w.initializeWorker o request).map .initialized
  | .beginBuild generation, w => (w.beginBuild o generation).map .built
  | .addSourceBatch generation sources, w => (w.addSourceBatch o generation sources).map .built
  | .applySourceChanges request, w => (w.applySourceChanges o request).map .built
  | .commitBuild generation, w => (w.commitBuild o generation).map .built
  | .abortBuild generation, w => (w.abortBuild o generation).map .built
  | .exportGeneration generation cacheIdentity, w =>
    (w.exportGeneration env.identities o generation cacheIdentity).map .exported
  | .restoreGeneration request, w =>
    (w.restoreGeneration env.identities o request).map .restored
  | .planReconciliation generation, w => (w.planReconciliation o generation).map .answered
  | .exportInitialBuildCheckpoint generation cursor cacheIdentity, w =>
    (w.exportInitialBuildCheckpoint env.identities o generation cursor cacheIdentity).map
      .checkpointExported
  | .restoreInitialBuildCheckpoint request, w =>
    (w.restoreInitialBuildCheckpoint env.identities o request).map .checkpointRestored
  | .planInitialBuildCheckpointReconciliation generation, w =>
    (w.planInitialBuildCheckpointReconciliation o generation).map .answered
  | .search, w => (w.search o).map .answered
  | .status, w =>
    (w.status o env.defaultDatabaseByteLimit env.noFormats).map .status
  | .dispose, w => w.dispose.map fun () => .disposed

def dispatchProduction (request : WorkerRequest) (w : Worker Rows) :
    Reply Rows (WorkerResult Answer) :=
  if request.id ≤ w.lastRequestId then
    w.refuse (fixedWorkerError .invalidRequest .protocol
      "Worker request ID is duplicate or stale." false)
  else { w with lastRequestId := request.id }.perform env o request.operation

/-- A response that cannot be posted is replaced by an error; what the request did stays done. -/
def handleMessage (request : WorkerRequest) (w : Worker Rows) : Reply Rows (WorkerResult Answer) :=
  let reply := w.dispatchProduction env o request
  { reply with
    result :=
      match o.posted with
      | .error _ => .error (.worker internalWorkerError)
      | .ok () => reply.result.mapError fun fault => .worker (workerError fault) }

end

end Worker

end Kwiry.Plugin
