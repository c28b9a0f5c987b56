import Kwiry.Document

/-!
# Discovery and Ingestion

`walk.rs` and `chunk.rs`: what a pass finds under a vault root, and the outcome of reading
one discovered file. The host file system is a `VaultWorld`, read once per pass: whether the
root is a directory, what the walk enumerates, and how each bounded read ends.
-/

namespace Kwiry

open Foundations List

/-! ## §1 Discovery -/

/-- A file the walk admitted: its extension belongs to the format registry. -/
structure DiscoveredFile where
  absolutePath : Text
  relativePath : Str
  format : SourceFormat
  (byteLength mtimeNanos : ℕ)
  registered : SourceFormat.fromPath relativePath.chars = some format

/-- Nanoseconds in a second. -/
def nanosPerSecond : ℕ := 1000000000

def DiscoveredFile.mtime (file : DiscoveredFile) : ℕ :=
  file.mtimeNanos / nanosPerSecond

structure IngestWarning where
  path : Text
  message : String

inductive EnumerationCompleteness where
  | complete | defective
  deriving DecidableEq

def EnumerationCompleteness.mayInferDeletions (c : EnumerationCompleteness) : Bool :=
  c = .complete

/-- How a bounded snapshot read of a file ends. -/
inductive SnapshotRead where
  | bytes (content : Bytes)
  | oversized (byteLength : ℕ)
  | unavailable
  | stale

/-- What one pass finds at a vault root. A path is enumerated at most once. -/
structure VaultWorld where
  isDir : Bool
  files : List DiscoveredFile
  warnings : List IngestWarning
  read : Str → SnapshotRead
  files_nodup : (files.map DiscoveredFile.relativePath).Nodup

/-- A walk with any warning is not evidence of absence. -/
def VaultWorld.completeness (world : VaultWorld) : EnumerationCompleteness :=
  if world.warnings.isEmpty then .complete else .defective

variable {f file g : DiscoveredFile}

/-- An enumerated file is the one found under its path. -/
theorem VaultWorld.find?_of_mem (world : VaultWorld) (h : file ∈ world.files) :
    world.files.find? (fun other => other.relativePath = file.relativePath) = some file :=
  (find?_key_eq_some_iff world.files_nodup).mpr ⟨h, rfl⟩

/-! ## §2 Ingestion -/

inductive FileOutcomeKind where
  | indexed | skipped | transientError
  deriving DecidableEq

structure FileIngestOutcome where
  (vaultId path : Str)
  format : SourceFormat
  extractionProfile : ExtractionProfile
  coverage : ExtractionCoverage
  contentHash : Option Digest
  (byteLength mtime mtimeNanos : ℕ)
  chunks : List PreparedChunk
  retrieval : RetrievalMetadata
  kind : FileOutcomeKind
  warning : Option IngestWarning

variable (B : Build)

/-- An outcome without chunks or hash. -/
def fileOutcome (vault : VaultRegistration) (file : DiscoveredFile)
    (coverage : ExtractionCoverage) (kind : FileOutcomeKind) (warning : String) :
    FileIngestOutcome where
  vaultId := vault.id
  path := file.relativePath
  format := file.format
  extractionProfile := B.extractionProfileFor file.format
  coverage := coverage
  contentHash := none
  byteLength := file.byteLength
  mtime := file.mtime
  mtimeNanos := file.mtimeNanos
  chunks := []
  retrieval := retrievalMetadata file.relativePath.chars []
  kind := kind
  warning := some ⟨file.absolutePath, warning⟩

/-- Refuses a preparation this build did not produce. -/
def SourcePreparation.ensureCurrentPolicy (preparation : SourcePreparation) :
    Except SourcePreparationError Unit :=
  if preparation.schemaVersion ≠ sourcePreparationSchemaVersion then
    .error ⟨"preparation_schema_mismatch",
      "source preparation schema " ++ toString preparation.schemaVersion ++
        " is not schema " ++ toString sourcePreparationSchemaVersion⟩
  else if preparation.extractionProfile ≠ B.extractionProfileFor preparation.format then
    .error ⟨"extraction_profile_mismatch",
      "source preparation was produced by the " ++ preparation.extractionProfile.asStr ++
        " extraction profile for " ++ preparation.format.asStr ++ "; this build compiled " ++
        (B.extractionProfileFor preparation.format).asStr⟩
  else
    .ok ()

/-- A current preparation, field by field. -/
def preparedOutcome (file : DiscoveredFile) (preparation : SourcePreparation) :
    FileIngestOutcome where
  vaultId := preparation.vaultId
  path := preparation.path
  format := preparation.format
  extractionProfile := preparation.extractionProfile
  coverage := preparation.coverage
  contentHash := preparation.contentHash
  byteLength := preparation.byteLength
  mtime := preparation.mtime
  mtimeNanos := preparation.mtimeNanos
  chunks := preparation.chunks
  retrieval := preparation.retrieval
  kind :=
    match preparation.kind with
    | .indexed => .indexed
    | .skipped => .skipped
  warning := preparation.warning.map fun message => ⟨file.absolutePath, message⟩

def fileOutcomeFromPreparation (file : DiscoveredFile) (preparation : SourcePreparation) :
    FileIngestOutcome :=
  match preparation.ensureCurrentPolicy B with
  | .error error =>
    -- a preparation from another extraction profile is refused, not reused
    { preparedOutcome file preparation with
      extractionProfile := B.extractionProfileFor preparation.format
      coverage := .quarantined
      chunks := []
      kind := .skipped
      warning := some ⟨file.absolutePath, error.message⟩ }
  | .ok () => preparedOutcome file preparation

def sourceDescriptor (vault : VaultRegistration) (file : DiscoveredFile) (byteLength : ℕ) :
    SourceDescriptor where
  vaultId := vault.id
  room := vault.room
  path := file.relativePath
  format := file.format
  byteLength := byteLength
  mtime := file.mtime
  mtimeNanos := file.mtimeNanos

/-- The outcome of one file. Every registered format is extractable, so the refusal before the read
is not modelled. -/
def ingestFile (vault : VaultRegistration) (file : DiscoveredFile) (read : SnapshotRead) :
    FileIngestOutcome :=
  match read with
  | .unavailable =>
    fileOutcome B vault file .unreadable .transientError "host_read: source is unavailable"
  | .stale =>
    fileOutcome B vault file .unreadable .transientError
      "host_read: source changed during bounded read"
  | .oversized byteLength =>
    match prepareOversizedSource B (sourceDescriptor vault file byteLength) with
    | .ok preparation => fileOutcomeFromPreparation B file preparation
    | .error _ =>
      fileOutcome B vault file .unreadable .skipped
        "host_read: oversized source could not be recorded"
  | .bytes bytes =>
    match prepareSourceBuffer B (sourceDescriptor vault file bytes.length) bytes with
    | .ok preparation => fileOutcomeFromPreparation B file preparation
    | .error error => fileOutcome B vault file .unreadable .skipped error.message

/-- The outcomes of a whole vault, in enumeration order. -/
def ingestVaultFiles (vault : VaultRegistration) (world : VaultWorld) : List FileIngestOutcome :=
  world.files.map fun file => ingestFile B vault file (world.read file.relativePath)

/-- The documents an outcome writes. -/
def FileIngestOutcome.documents (outcome : FileIngestOutcome) : List Document :=
  outcome.chunks.map fun chunk => chunkDocument B chunk outcome.retrieval

/-! ## §3 What every outcome carries -/

/-- What an outcome carries of its vault, its file and its read, whatever its kind. -/
structure IngestSpec (vault : VaultRegistration) (file : DiscoveredFile) (read : SnapshotRead)
    (outcome : FileIngestOutcome) : Prop where
  vaultId : outcome.vaultId = vault.id
  path : outcome.path = file.relativePath
  format : outcome.format = file.format
  extractionProfile : outcome.extractionProfile = B.extractionProfileFor file.format
  mtimeNanos : outcome.mtimeNanos = file.mtimeNanos
  /-- A hash is the hash of the bytes read, under a valid descriptor. -/
  contentHash : ∀ hash, outcome.contentHash = some hash → ∃ bytes, read = .bytes bytes ∧
    hash = B.hash.digest bytes ∧
    validateDescriptor (sourceDescriptor vault file bytes.length) = .ok ()
  /-- Chunks mean an indexed source with a hash. -/
  chunks_indexed : outcome.chunks ≠ [] →
    outcome.kind = .indexed ∧ outcome.contentHash.isSome = true
  /-- Every chunk is filed under the outcome's key and classified under its vault. -/
  chunks_key : ∀ chunk ∈ outcome.chunks,
    chunk.sourceKey B = sourceKey B.hash vault.id file.relativePath ∧
    chunk.chunk.vaultId = vault.id ∧ chunk.chunk.room = vault.room
  /-- Only reads that fail are transient. -/
  transient : outcome.kind = .transientError ↔ read = .unavailable ∨ read = .stale

section

variable {preparation : SourcePreparation} {descriptor : SourceDescriptor}
  (h : preparation.Describes B descriptor)

include h

lemma ensureCurrentPolicy_ok : preparation.ensureCurrentPolicy B = .ok () := by
  simp [SourcePreparation.ensureCurrentPolicy, h.schemaVersion, h.extractionProfile, h.format]

lemma fileOutcomeFromPreparation_eq :
    fileOutcomeFromPreparation B file preparation = preparedOutcome file preparation := by
  rw [fileOutcomeFromPreparation, ensureCurrentPolicy_ok B h]

end

lemma fileOutcome_spec (vault : VaultRegistration) (file : DiscoveredFile) (read : SnapshotRead)
    (coverage : ExtractionCoverage) (kind : FileOutcomeKind) (warning : String)
    (hkind : kind = .transientError ↔ read = .unavailable ∨ read = .stale) :
    IngestSpec B vault file read (fileOutcome B vault file coverage kind warning) where
  vaultId := rfl
  path := rfl
  format := rfl
  extractionProfile := rfl
  mtimeNanos := rfl
  contentHash _ h := by cases h
  chunks_indexed h := absurd rfl h
  chunks_key _ h := absurd h not_mem_nil
  transient := hkind

lemma ingestFile_spec (vault : VaultRegistration) (file : DiscoveredFile) (read : SnapshotRead) :
    IngestSpec B vault file read (ingestFile B vault file read) := by
  cases read with
  | unavailable | stale =>
    apply fileOutcome_spec
    simp
  | oversized byteLength =>
    simp only [ingestFile]
    cases hprep : prepareOversizedSource B (sourceDescriptor vault file byteLength) with
    | error e =>
      apply fileOutcome_spec
      simp
    | ok preparation =>
      have hdesc := prepareOversizedSource_describes B hprep
      obtain ⟨coverage, warning, -, rfl⟩ := prepareOversizedSource_cases B hprep
      simp only [fileOutcomeFromPreparation_eq B hdesc]
      refine ⟨rfl, rfl, rfl, rfl, rfl, fun _ h => ?_, fun h => absurd rfl h,
        fun _ h => absurd h not_mem_nil, by simp [preparedOutcome, skippedPreparation]⟩
      cases h
  | bytes bytes =>
    simp only [ingestFile]
    cases hprep : prepareSourceBuffer B (sourceDescriptor vault file bytes.length) bytes with
    | error e =>
      apply fileOutcome_spec
      simp
    | ok preparation =>
      have hdesc := prepareSourceBuffer_describes B hprep
      simp only [fileOutcomeFromPreparation_eq B hdesc]
      obtain ⟨hvalid, -, ⟨contentHash, _, _, hhash, -, rfl⟩ |
        ⟨extracted, chunks, -, -, hchunks, rfl⟩⟩ := prepareSourceBuffer_cases B hprep
      · refine ⟨rfl, rfl, rfl, rfl, rfl, fun hash h => ?_, fun h => absurd rfl h,
          fun _ h => absurd h not_mem_nil, by simp [preparedOutcome, skippedPreparation]⟩
        rcases hhash with rfl | rfl
        · cases h
        · cases h
          exact ⟨bytes, rfl, rfl, hvalid⟩
      · obtain ⟨-, hsound⟩ := prepareChunks_sound B hchunks
        refine ⟨rfl, rfl, rfl, rfl, rfl, fun hash h => ?_, fun _ => ⟨rfl, rfl⟩,
          fun chunk hmem => ?_, by simp [preparedOutcome, indexedPreparation]⟩
        · cases h
          exact ⟨bytes, rfl, rfl, hvalid⟩
        · obtain ⟨i, hget⟩ := mem_iff_getElem?.mp hmem
          have hchunk := hsound i chunk hget
          exact ⟨hchunk.sourceKey_eq B, hchunk.vaultId, hchunk.room⟩

variable {v vault w : VaultRegistration}

variable {document : Document}

/-- Every document of an outcome is filed under the outcome's key. -/
theorem ingestFile_documents_key {read : SnapshotRead}
    (h : document ∈ (ingestFile B vault file read).documents B) :
    document.sourceKey = sourceKey B.hash vault.id file.relativePath := by
  obtain ⟨chunk, hchunk, rfl⟩ := mem_map.mp h
  exact ((ingestFile_spec B vault file read).chunks_key chunk hchunk).1

/-! ## §4 What the documents depend on

Preparation carries the modification time along and never looks at it, so the documents of
one text under two times differ in their time only. -/

def SourceDescriptor.restamp (mtime mtimeNanos : ℕ) (descriptor : SourceDescriptor) :
    SourceDescriptor :=
  { descriptor with mtime := mtime, mtimeNanos := mtimeNanos }

def PreparedChunk.restamp (mtime : ℕ) (prepared : PreparedChunk) : PreparedChunk :=
  { prepared with chunk := { prepared.chunk with mtime := mtime } }

def SourcePreparation.restamp (mtime mtimeNanos : ℕ) (preparation : SourcePreparation) :
    SourcePreparation :=
  { preparation with
    mtime := mtime
    mtimeNanos := mtimeNanos
    chunks := preparation.chunks.map (PreparedChunk.restamp mtime) }

def Document.restamp (mtime : ℕ) (document : Document) : Document :=
  { document with mtime := mtime }

private def ChunkLoop.restamp (mtime : ℕ) (loop : ChunkLoop) : ChunkLoop :=
  { loop with chunks := loop.chunks.map (PreparedChunk.restamp mtime) }

variable {bytes : Bytes}

section Restamp

variable {B} (mtime mtimeNanos : ℕ) (descriptor : SourceDescriptor)

section

variable (extracted : ExtractedSource) (contentHash : Digest)

lemma preparePart_restamp (section_ : ExtractedSection) (loop : ChunkLoop) (part : Text) :
    preparePart B (descriptor.restamp mtime mtimeNanos) extracted contentHash section_
        (loop.restamp mtime) part =
      (preparePart B descriptor extracted contentHash section_ loop part).map
        (ChunkLoop.restamp mtime) := by
  have hchunk : sectionChunk B (descriptor.restamp mtime mtimeNanos) extracted contentHash
      section_ loop.chunkIx part =
      (sectionChunk B descriptor extracted contentHash section_ loop.chunkIx part).restamp
        mtime := rfl
  simp only [preparePart, ChunkLoop.restamp, length_map, hchunk]
  by_cases hblank : isBlank part = true
  · simp [hblank, Except.map, ChunkLoop.restamp]
  by_cases hfull : loop.chunks.length = maxPreparedChunksPerSource
  · simp [hblank, hfull, Except.map]
  · simp only [hblank, hfull, Bool.false_eq_true, if_false]
    split_ifs <;> simp [Except.map, ChunkLoop.restamp]

lemma chunkLoop_restamp :
    chunkLoop B (descriptor.restamp mtime mtimeNanos) extracted contentHash =
      (chunkLoop B descriptor extracted contentHash).map (ChunkLoop.restamp mtime) := by
  have hsection : ∀ (loop : ChunkLoop) (section_ : ExtractedSection),
      (splitOversized section_.content).foldlM
          (preparePart B (descriptor.restamp mtime mtimeNanos) extracted contentHash section_)
          (loop.restamp mtime) =
        ((splitOversized section_.content).foldlM
          (preparePart B descriptor extracted contentHash section_) loop).map
            (ChunkLoop.restamp mtime) := by
    intro loop section_
    exact foldlM_map_state _ _ (ChunkLoop.restamp mtime)
      (preparePart_restamp mtime mtimeNanos descriptor extracted contentHash section_) _ loop
  exact foldlM_map_state _ _ (ChunkLoop.restamp mtime) hsection extracted.sections ⟨[], 0, 0⟩

lemma prepareChunks_restamp :
    prepareChunks B (descriptor.restamp mtime mtimeNanos) extracted contentHash =
      (prepareChunks B descriptor extracted contentHash).map
        (map (PreparedChunk.restamp mtime)) := by
  unfold prepareChunks
  rw [chunkLoop_restamp]
  cases chunkLoop B descriptor extracted contentHash with
  | error e => rfl
  | ok loop =>
    simp only [Except.map, bind, Except.bind, ChunkLoop.restamp, isEmpty_map, pure,
      Except.pure, SourceDescriptor.restamp]
    split <;> rfl

end

/-- Another modification time passes through preparation and touches nothing else. -/
theorem prepareSourceBuffer_restamp (bytes : Bytes) :
    prepareSourceBuffer B (descriptor.restamp mtime mtimeNanos) bytes =
      (prepareSourceBuffer B descriptor bytes).map
        (SourcePreparation.restamp mtime mtimeNanos) := by
  have hvalid : validateDescriptor (descriptor.restamp mtime mtimeNanos) =
      validateDescriptor descriptor := rfl
  have hlength : (descriptor.restamp mtime mtimeNanos).byteLength = descriptor.byteLength := rfl
  have hformat : (descriptor.restamp mtime mtimeNanos).format = descriptor.format := rfl
  simp only [prepareSourceBuffer, prepareOversizedSource, hvalid, hlength, hformat,
    prepareChunks_restamp, bind, Except.bind, pure, Except.pure]
  cases validateDescriptor descriptor with
  | error e => rfl
  | ok u =>
    simp only
    split
    · rfl
    split
    · split
      · rfl
      split <;> rfl
    split
    · rfl
    split
    · rfl
    cases prepareChunks B descriptor _ (B.hash.digest bytes) <;> rfl

/-- The documents of one text for one registration, path and room, under two times. -/
theorem ingestFile_documents_restamp (hid : v.id = w.id) (hroom : v.room = w.room)
    (hpath : f.relativePath = g.relativePath) :
    (ingestFile B v f (.bytes bytes)).documents B =
      ((ingestFile B w g (.bytes bytes)).documents B).map (Document.restamp f.mtime) := by
  have hformat : f.format = g.format := by
    have hf := f.registered
    rw [hpath, g.registered, Option.some.injEq] at hf
    exact hf.symm
  have hdesc : sourceDescriptor v f bytes.length =
      (sourceDescriptor w g bytes.length).restamp f.mtime f.mtimeNanos := by
    simp [sourceDescriptor, SourceDescriptor.restamp, hid, hroom, hpath, hformat]
  simp only [ingestFile, hdesc, prepareSourceBuffer_restamp]
  cases hprep : prepareSourceBuffer B (sourceDescriptor w g bytes.length) bytes with
  | error e => rfl
  | ok preparation =>
    have hdescribes := prepareSourceBuffer_describes B hprep
    have hmoved : (preparation.restamp f.mtime f.mtimeNanos).Describes B
        ((sourceDescriptor w g bytes.length).restamp f.mtime f.mtimeNanos) := by
      apply prepareSourceBuffer_describes
      rw [prepareSourceBuffer_restamp, hprep]
      rfl
    simp only [Except.map, fileOutcomeFromPreparation_eq B hdescribes,
      fileOutcomeFromPreparation_eq B hmoved]
    simp only [FileIngestOutcome.documents, preparedOutcome, SourcePreparation.restamp, map_map]
    rfl

/-- Every document of a file carries the file's modification second. -/
theorem ingestFile_documents_mtime
    (h : document ∈ (ingestFile B vault file (.bytes bytes)).documents B) :
    document.mtime = file.mtime := by
  rw [ingestFile_documents_restamp rfl rfl rfl] at h
  obtain ⟨other, -, rfl⟩ := mem_map.mp h
  rfl

/-- Two times of one text give the same documents exactly when there are none or the times agree. -/
theorem ingestFile_documents_perm_iff (hid : v.id = w.id) (hroom : v.room = w.room)
    (hpath : f.relativePath = g.relativePath) :
    ((ingestFile B w g (.bytes bytes)).documents B).Perm
        ((ingestFile B v f (.bytes bytes)).documents B) ↔
      ∀ document ∈ (ingestFile B w g (.bytes bytes)).documents B,
        document.mtime = f.mtime := by
  constructor
  · intro hperm document hmem
    exact ingestFile_documents_mtime (hperm.mem_iff.mp hmem)
  · intro hmtime
    rw [ingestFile_documents_restamp hid hroom hpath]
    have hfixed : ((ingestFile B w g (.bytes bytes)).documents B).map
        (Document.restamp f.mtime) = (ingestFile B w g (.bytes bytes)).documents B := by
      conv_rhs => rw [← map_id ((ingestFile B w g (.bytes bytes)).documents B)]
      refine map_congr_left fun document hmem => ?_
      rw [← hmtime document hmem]
      rfl
    rw [hfixed]

end Restamp

/-! ## §5 What the chunk ids depend on

Neither the room nor the time: the ids of a text are those of its vault, its path and its
bytes. -/

def FileIngestOutcome.chunkIds (outcome : FileIngestOutcome) : List Digest :=
  outcome.chunks.map fun prepared => prepared.chunk.chunkId

lemma FileIngestOutcome.documents_chunkIds (outcome : FileIngestOutcome) :
    (outcome.documents B).map Document.chunkId = outcome.chunkIds := by
  simp [documents, chunkIds, chunkDocument, Function.comp_def]

section ChunkIds

variable {B}

/-- Two chunk loops that stand at one ordinal with the same ids. -/
private def ChunkLoop.SameIds (left right : ChunkLoop) : Prop :=
  left.chunks.map (fun prepared => prepared.chunk.chunkId) =
      right.chunks.map (fun prepared => prepared.chunk.chunkId) ∧
    left.chunkIx = right.chunkIx ∧ left.preparedHeadingBytes = right.preparedHeadingBytes

variable {d e : SourceDescriptor} {extracted : ExtractedSource} {contentHash : Digest}

lemma preparePart_sameIds (hid : d.vaultId = e.vaultId) (hpath : d.path = e.path)
    (hformat : d.format = e.format) (section_ : ExtractedSection) (left right : ChunkLoop)
    (part : Text) (h : left.SameIds right) :
    Agree ChunkLoop.SameIds (preparePart B d extracted contentHash section_ left part)
      (preparePart B e extracted contentHash section_ right part) := by
  obtain ⟨hids, hix, hbytes⟩ := h
  have hlength : left.chunks.length = right.chunks.length := by
    simpa using congrArg length hids
  simp only [preparePart, hlength, hbytes]
  split_ifs
  · exact ⟨hids, hix, hbytes⟩
  · trivial
  · trivial
  · refine ⟨?_, by simp [hix], rfl⟩
    simp [hids, sectionChunk, hid, hpath, hformat, hix]

/-- Two descriptors of one source are prepared into chunks of the same ids. -/
theorem prepareChunks_sameIds (extracted : ExtractedSource) (contentHash : Digest)
    (hid : d.vaultId = e.vaultId) (hpath : d.path = e.path) (hformat : d.format = e.format) :
    Agree (fun left right : List PreparedChunk =>
        left.map (fun prepared => prepared.chunk.chunkId) =
          right.map fun prepared => prepared.chunk.chunkId)
      (prepareChunks B d extracted contentHash) (prepareChunks B e extracted contentHash) := by
  refine Agree.bind (R := ChunkLoop.SameIds) ?_ ?_
  · refine Agree.foldlM ?_ extracted.sections ⟨rfl, rfl, rfl⟩
    intro left right section_ h
    exact Agree.foldlM (fun left right part h =>
      preparePart_sameIds hid hpath hformat section_ left right part h) _ h
  · rintro left right ⟨hids, -, -⟩
    have hempty : left.chunks.isEmpty = right.chunks.isEmpty := by
      simpa using congrArg isEmpty hids
    simp only [hempty, hformat]
    split
    · simp [pure, Except.pure, Agree, carrierChunk, hid, hpath, hformat]
    · exact hids

/-- An ingest with chunks prepared them from the extracted text. -/
theorem chunks_of_ingestFile (h : (ingestFile B v f (.bytes bytes)).chunks ≠ []) :
    ∃ extracted, B.extractSource f.format bytes = .ok extracted ∧
      prepareChunks B (sourceDescriptor v f bytes.length) extracted (B.hash.digest bytes) =
        .ok (ingestFile B v f (.bytes bytes)).chunks := by
  simp only [ingestFile] at h ⊢
  cases hprep : prepareSourceBuffer B (sourceDescriptor v f bytes.length) bytes with
  | error error =>
    rw [hprep] at h
    exact absurd rfl h
  | ok preparation =>
    rw [hprep] at h
    simp only [fileOutcomeFromPreparation_eq B (prepareSourceBuffer_describes B hprep)] at h ⊢
    obtain ⟨-, -, ⟨_, _, _, -, -, rfl⟩ | ⟨extracted, chunks, hextract, -, hchunks, rfl⟩⟩ :=
      prepareSourceBuffer_cases B hprep
    · exact absurd rfl h
    · exact ⟨extracted, hextract, hchunks⟩

/-- The id of a document of an ingest is that of its source and its position. -/
theorem chunkId_of_ingestFile {i : ℕ}
    (h : ((ingestFile B v f (.bytes bytes)).documents B)[i]? = some document) :
    i < 2 ^ 64 ∧ ∃ headings tag,
      document.chunkId = chunkId B.hash v.id f.relativePath headings i tag := by
  rw [FileIngestOutcome.documents, List.getElem?_map, Option.map_eq_some_iff] at h
  obtain ⟨chunk, hget, rfl⟩ := h
  have hi := (List.getElem?_eq_some_iff.mp hget).1
  have hne := ne_nil_of_length_pos (Nat.zero_lt_of_lt hi)
  obtain ⟨extracted, -, hchunks⟩ := chunks_of_ingestFile hne
  obtain ⟨hbound, hsound⟩ := prepareChunks_sound B hchunks
  have hlimit : maxPreparedChunksPerSource < 2 ^ 64 := by decide
  exact ⟨(hi.trans_le hbound).trans hlimit, _, _, (hsound i chunk hget).chunkId⟩

lemma nodup_chunkIds_ingestFile :
    (((ingestFile B v f (.bytes bytes)).documents B).map Document.chunkId).Nodup := by
  rw [Nodup, pairwise_map, pairwise_iff_getElem]
  intro i j hi hj hij heq
  obtain ⟨hi', _, _, hid⟩ := chunkId_of_ingestFile (getElem?_eq_getElem hi)
  obtain ⟨hj', _, _, hid'⟩ := chunkId_of_ingestFile (getElem?_eq_getElem hj)
  exact hij.ne (chunkId_inj B.hash hi' hj' (hid.symm.trans (heq.trans hid'))).2.2

/-- One text at one path of one vault has the same chunk ids whenever it has chunks. -/
theorem ingestFile_chunkIds (hid : v.id = w.id) (hpath : f.relativePath = g.relativePath)
    (hf : (ingestFile B v f (.bytes bytes)).chunks ≠ [])
    (hg : (ingestFile B w g (.bytes bytes)).chunks ≠ []) :
    (ingestFile B v f (.bytes bytes)).chunkIds = (ingestFile B w g (.bytes bytes)).chunkIds := by
  have hformat : f.format = g.format := by
    have hf := f.registered
    rw [hpath, g.registered, Option.some.injEq] at hf
    exact hf.symm
  obtain ⟨left, hleft, hchunksLeft⟩ := chunks_of_ingestFile hf
  obtain ⟨right, hright, hchunksRight⟩ := chunks_of_ingestFile hg
  rw [hformat, hright] at hleft
  cases hleft
  have hagree := prepareChunks_sameIds (B := B) (d := sourceDescriptor v f bytes.length)
    (e := sourceDescriptor w g bytes.length) left (B.hash.digest bytes) hid hpath hformat
  rw [hchunksLeft, hchunksRight] at hagree
  exact hagree

end ChunkIds

end Kwiry
