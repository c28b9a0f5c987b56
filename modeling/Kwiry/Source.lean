import Kwiry.Lexical
import Kwiry.Policy

/-!
# Source Preparation

`source.rs`: a descriptor and a byte buffer become chunks, or a per-source reason why not.
-/

namespace Kwiry

open Foundations List

/-! ## §1 Descriptors -/

/-- The schema every preparation is produced under. -/
def sourcePreparationSchemaVersion : ℕ := 10

/-- Most chunks prepared from one source. -/
def maxPreparedChunksPerSource : ℕ := 100000

/-- Most heading bytes prepared from one source. -/
def maxPreparedHeadingBytesPerSource : ℕ := maxFileBytes

/-- A source as its host describes it. -/
structure SourceDescriptor where
  vaultId : Str
  room : Option Str
  path : Str
  format : SourceFormat
  (byteLength mtime mtimeNanos : ℕ)

/-- Whether a source was indexed. -/
inductive SourcePreparationKind where
  | indexed | skipped
  deriving DecidableEq

/-- A refused preparation. -/
structure SourcePreparationError where
  (code message : String)

/-- A prepared source. -/
structure SourcePreparation where
  schemaVersion : ℕ
  sourceKey : SourceKey
  vaultId : Str
  room : Option Str
  path : Str
  format : SourceFormat
  extractionProfile : ExtractionProfile
  coverage : ExtractionCoverage
  contentHash : Option Digest
  (byteLength mtime mtimeNanos : ℕ)
  retrieval : RetrievalMetadata
  chunks : List PreparedChunk
  kind : SourcePreparationKind
  warning : Option String

/-- An `invalid_source` refusal. -/
def validationError (message : String) : SourcePreparationError :=
  ⟨"invalid_source", message⟩

/-- Whether a path is normalized, vault-relative and forward-slashed. -/
def isNormalizedPath (path : Text) : Bool :=
  !path.isEmpty && path.head? ≠ some '/' && path.getLast? ≠ some '/' &&
    !path.contains '\\' && !path.contains '\x00' &&
    (path.splitOn '/').all fun component =>
      !component.isEmpty && component ≠ ['.'] && component ≠ ['.', '.']

/-- The checks every preparation starts with. -/
def validateDescriptor (descriptor : SourceDescriptor) : Except SourcePreparationError Unit :=
  if isBlank descriptor.vaultId.chars then
    .error (validationError "vault_id must not be empty")
  else if descriptor.room.any fun room => isBlank room.chars then
    .error (validationError "room must not be empty when provided")
  else if !isNormalizedPath descriptor.path.chars then
    .error (validationError "path must be a normalized vault-relative forward-slash file path")
  else
    match SourceFormat.fromPath descriptor.path.chars with
    | none =>
      .error (validationError "path extension is not registered as a supported source format")
    | some pathFormat =>
      if pathFormat ≠ descriptor.format then
        .error (validationError ("descriptor format " ++ descriptor.format.asStr ++
          " does not match path extension format " ++ pathFormat.asStr))
      else
        .ok ()

/-- The names a source is retrieved by: its file name, the name without its extension, and its
aliases. -/
def retrievalMetadata (path : Text) (aliases : List Text) : RetrievalMetadata :=
  let filename := fileName path
  let stem :=
    match rsplitDot filename with
    | some (stem, _) => if stem.isEmpty then filename else stem
    | none => filename
  ⟨filename, stem, aliases⟩

/-! ## §2 Splitting -/

/-- First position a split may take. -/
def splitFloorChars : ℕ := maxChunkChars * 3 / 4

/-- The last paragraph break at or past the floor, else the last whitespace there, else the
    target. -/
def findSplit (rest : Text) (target : ℕ) : ℕ :=
  let candidates := (range target).filter (splitFloorChars ≤ ·)
  let paragraph := (candidates.filter fun i => (rest.drop (i - 2)).take 2 = ['\n', '\n']).getLast?
  let whitespace := (candidates.filter fun i => rest[i]?.any isWhitespace).getLast?
  (paragraph.or whitespace).getD target

/-- Where the next part of a section ends. -/
def splitEnd (rest : Text) : ℕ :=
  let target := min rest.length maxChunkChars
  if target = rest.length then target else findSplit rest target

lemma splitFloorChars_le_findSplit {rest : Text} {target : ℕ} (h : splitFloorChars ≤ target) :
    splitFloorChars ≤ findSplit rest target := by
  have hmem : ∀ {p : ℕ → Bool} {i : ℕ},
      (((range target).filter (splitFloorChars ≤ ·)).filter p).getLast? = some i →
      splitFloorChars ≤ i := by
    intro p i hi
    have := mem_of_mem_getLast? (Option.mem_def.mpr hi)
    simp only [mem_filter, decide_eq_true_eq] at this
    exact this.1.2
  simp only [findSplit]
  cases hp : ((((range target).filter (splitFloorChars ≤ ·)).filter
      fun i => (rest.drop (i - 2)).take 2 = ['\n', '\n']).getLast?) with
  | some i => simpa using hmem hp
  | none =>
    cases hw : ((((range target).filter (splitFloorChars ≤ ·)).filter
        fun i => rest[i]?.any isWhitespace).getLast?) with
    | some i => simpa using hmem hw
    | none => simpa using h

lemma splitEnd_pos {rest : Text} (h : rest ≠ []) : 0 < splitEnd rest := by
  have hlen : 0 < rest.length := length_pos_iff.mpr h
  simp only [splitEnd]
  split
  · simp only [maxChunkChars]
    omega
  · rename_i hne
    have hmin : min rest.length maxChunkChars = maxChunkChars := by omega
    have hfloor : splitFloorChars ≤ findSplit rest (min rest.length maxChunkChars) :=
      splitFloorChars_le_findSplit (by rw [hmin]; decide)
    exact lt_of_lt_of_le (by decide) hfloor

/-- The successive parts of an oversized section. -/
def splitParts (rest : Text) : List Text :=
  if _hempty : rest = [] then
    []
  else
    let stop := splitEnd rest
    if stop = rest.length then
      [rest.take stop]
    else if chunkOverlapChars < stop then
      rest.take stop :: splitParts (rest.drop (stop - chunkOverlapChars))
    else
      rest.take stop :: splitParts (rest.drop stop)
termination_by rest.length
decreasing_by
  · have hlen : 0 < rest.length := length_pos_iff.mpr ‹_›
    simp only [length_drop]
    omega
  · have hlen : 0 < rest.length := length_pos_iff.mpr ‹_›
    have hpos : 0 < splitEnd rest := splitEnd_pos ‹_›
    simp only [length_drop]
    omega

/-- A section cut into parts of at most the chunk size. -/
def splitOversized (source : Text) : List Text :=
  if source.length ≤ maxChunkChars then [source] else splitParts source

/-! ## §3 Preparation -/

variable (B : Build)

/-- A preparation that indexes nothing. -/
def skippedPreparation (descriptor : SourceDescriptor) (contentHash : Option Digest)
    (coverage : ExtractionCoverage) (warning : String) : SourcePreparation where
  schemaVersion := sourcePreparationSchemaVersion
  sourceKey := sourceKey B.hash descriptor.vaultId descriptor.path
  vaultId := descriptor.vaultId
  room := descriptor.room
  path := descriptor.path
  format := descriptor.format
  extractionProfile := B.extractionProfileFor descriptor.format
  coverage := coverage
  contentHash := contentHash
  byteLength := descriptor.byteLength
  mtime := descriptor.mtime
  mtimeNanos := descriptor.mtimeNanos
  retrieval := retrievalMetadata descriptor.path.chars []
  chunks := []
  kind := .skipped
  warning := some warning

/-- An oversized source, recorded without reading it. -/
def prepareOversizedSource (descriptor : SourceDescriptor) :
    Except SourcePreparationError SourcePreparation := do
  validateDescriptor descriptor
  if descriptor.byteLength ≤ maxFileBytes then
    throw (validationError "oversized source does not exceed the file limit")
  if descriptor.format = .html then
    return skippedPreparation B descriptor none .quarantined
      "HTML extraction exceeded a mandatory budget"
  else
    return skippedPreparation B descriptor none .unreadable
      ("skipped file larger than " ++ toString maxFileBytes ++ " bytes (" ++
        toString descriptor.byteLength ++ ")")

/-- The state of the chunk loop. -/
structure ChunkLoop where
  chunks : List PreparedChunk
  (chunkIx preparedHeadingBytes : ℕ)

/-- The total length of a heading path. -/
def headingPathBytes (path : List Text) : ℕ :=
  (path.map utf8Len).sum

section

variable (descriptor : SourceDescriptor) (extracted : ExtractedSource) (contentHash : Digest)

/-- The prepared chunk of one part of a section. -/
def sectionChunk (section_ : ExtractedSection) (chunkIx : ℕ) (part : Text) : PreparedChunk :=
  let policy := descriptor.format.policy
  let headingText := joinWith [' '] section_.headingPath
  let boosted := !policy.suppressNonPrimaryBoosts || section_.role = .primary
  let content := trim part
  { chunk :=
      { chunkId := chunkId B.hash descriptor.vaultId descriptor.path section_.headingPath chunkIx
          (if policy.roleTaggedChunkIds then some section_.role else none)
        vaultId := descriptor.vaultId
        room := descriptor.room
        path := descriptor.path
        headingPath := section_.headingPath
        content := content
        linksOut := extracted.linksOut
        mtime := descriptor.mtime
        contentHash := contentHash
        chunkingVersion := chunkingVersion }
    headingText := if boosted then headingText else []
    normalizedHeading := if boosted then normalizeRaw B.tables headingText else none
    technicalIdentifiers := if boosted then technicalIdentifiers B.tables content else []
    contentRole := section_.role
    sourceLocator := section_.locator
    sourceFormat := descriptor.format
    extractionCoverage := extracted.coverage
    sourceProperties := extracted.properties
    sourceFrontmatter := extracted.frontmatter }

/-- One iteration of the chunk loop: blank parts are passed over, and both inventories are checked
before the chunk is made. -/
def preparePart (section_ : ExtractedSection) (loop : ChunkLoop) (part : Text) :
    Except SourcePreparationError ChunkLoop :=
  if isBlank part then
    .ok loop
  else if loop.chunks.length = maxPreparedChunksPerSource then
    .error ⟨"index_limit_exceeded", "prepared source exceeds the chunk inventory limit"⟩
  else
    let headingText := joinWith [' '] section_.headingPath
    let headingCost := headingPathBytes section_.headingPath + utf8Len headingText +
      ((normalizeRaw B.tables headingText).map utf8Len).getD 0
    if maxPreparedHeadingBytesPerSource < loop.preparedHeadingBytes + headingCost then
      .error ⟨"index_limit_exceeded", "prepared source exceeds the heading-path memory limit"⟩
    else
      .ok { chunks := loop.chunks ++
              [sectionChunk B descriptor extracted contentHash section_ loop.chunkIx part]
            chunkIx := loop.chunkIx + 1
            preparedHeadingBytes := loop.preparedHeadingBytes + headingCost }

/-- The chunk loop over all sections. -/
def chunkLoop : Except SourcePreparationError ChunkLoop :=
  extracted.sections.foldlM
    (fun loop section_ => (splitOversized section_.content).foldlM
      (preparePart B descriptor extracted contentHash section_) loop)
    ⟨[], 0, 0⟩

/-- The empty chunk that carries source-owned metadata. -/
def carrierChunk : PreparedChunk where
  chunk :=
    { chunkId := chunkId B.hash descriptor.vaultId descriptor.path [] 0
        (if descriptor.format.policy.roleTaggedChunkIds then some .primary else none)
      vaultId := descriptor.vaultId
      room := descriptor.room
      path := descriptor.path
      headingPath := []
      content := []
      linksOut := extracted.linksOut
      mtime := descriptor.mtime
      contentHash := contentHash
      chunkingVersion := chunkingVersion }
  headingText := []
  normalizedHeading := none
  technicalIdentifiers := []
  contentRole := .primary
  sourceLocator := none
  sourceFormat := descriptor.format
  extractionCoverage := extracted.coverage
  sourceProperties := extracted.properties
  sourceFrontmatter := extracted.frontmatter

/-- The chunks of an extracted source: those of its sections, or a carrier when there are none and
the source owns metadata. -/
def prepareChunks : Except SourcePreparationError (List PreparedChunk) := do
  let loop ← chunkLoop B descriptor extracted contentHash
  let metadataOnlyCarrier :=
    descriptor.format.policy.metadataOnlyCarrier && extracted.frontmatter.title.isSome
  if loop.chunks.isEmpty && (!extracted.properties.entries.isEmpty || metadataOnlyCarrier) then
    return [carrierChunk B descriptor extracted contentHash]
  else
    return loop.chunks

end

/-- The preparation of an indexed source. -/
def indexedPreparation (descriptor : SourceDescriptor) (bytes : Bytes)
    (extracted : ExtractedSource) (chunks : List PreparedChunk) : SourcePreparation where
  schemaVersion := sourcePreparationSchemaVersion
  sourceKey := sourceKey B.hash descriptor.vaultId descriptor.path
  vaultId := descriptor.vaultId
  room := descriptor.room
  path := descriptor.path
  format := descriptor.format
  extractionProfile := B.extractionProfileFor descriptor.format
  coverage := extracted.coverage
  contentHash := some (B.hash.digest bytes)
  byteLength := descriptor.byteLength
  mtime := descriptor.mtime
  mtimeNanos := descriptor.mtimeNanos
  retrieval := retrievalMetadata descriptor.path.chars extracted.aliases
  chunks := chunks
  kind := .indexed
  warning := extracted.warning

/-- Preparation of a source whose bytes were read. -/
def prepareSourceBuffer (descriptor : SourceDescriptor) (bytes : Bytes) :
    Except SourcePreparationError SourcePreparation := do
  validateDescriptor descriptor
  if descriptor.byteLength ≠ bytes.length then
    throw (validationError ("byte_length " ++ toString descriptor.byteLength ++
      " does not match source buffer length " ++ toString bytes.length))
  if maxFileBytes < bytes.length then
    prepareOversizedSource B descriptor
  else
    let contentHash := B.hash.digest bytes
    match B.extractSource descriptor.format bytes with
    | .error message =>
      return skippedPreparation B descriptor (some contentHash) .quarantined message
    | .ok extracted =>
      if !extracted.coverage.isIndexed then
        return skippedPreparation B descriptor (some contentHash) extracted.coverage
          (extracted.warning.getD "")
      else
        match prepareChunks B descriptor extracted contentHash with
        | .error error =>
          return skippedPreparation B descriptor (some contentHash) .quarantined error.message
        | .ok chunks =>
          return indexedPreparation B descriptor bytes extracted chunks

/-! ## §4 What every prepared chunk carries -/

/-- The chunk at ordinal `i` carries its descriptor's names and the identity derived from its own
headings and role. -/
structure ChunkSound (descriptor : SourceDescriptor) (i : ℕ) (prepared : PreparedChunk) : Prop where
  vaultId : prepared.chunk.vaultId = descriptor.vaultId
  room : prepared.chunk.room = descriptor.room
  path : prepared.chunk.path = descriptor.path
  sourceFormat : prepared.sourceFormat = descriptor.format
  chunkId : prepared.chunk.chunkId =
    chunkId B.hash descriptor.vaultId descriptor.path prepared.chunk.headingPath i
      (if descriptor.format.policy.roleTaggedChunkIds then some prepared.contentRole else none)

lemma sectionChunk_sound (descriptor : SourceDescriptor) (extracted : ExtractedSource)
    (contentHash : Digest) (section_ : ExtractedSection) (i : ℕ) (part : Text) :
    ChunkSound B descriptor i
      (sectionChunk B descriptor extracted contentHash section_ i part) :=
  ⟨rfl, rfl, rfl, rfl, rfl⟩

lemma carrierChunk_sound (descriptor : SourceDescriptor) (extracted : ExtractedSource)
    (contentHash : Digest) :
    ChunkSound B descriptor 0 (carrierChunk B descriptor extracted contentHash) :=
  ⟨rfl, rfl, rfl, rfl, rfl⟩

/-- The invariant of the chunk loop: ordinals count the chunks, stay within the inventory, and each
chunk is sound at its own ordinal. -/
structure ChunkLoop.Sound (descriptor : SourceDescriptor) (loop : ChunkLoop) : Prop where
  chunkIx : loop.chunkIx = loop.chunks.length
  bounded : loop.chunks.length ≤ maxPreparedChunksPerSource
  chunks : ∀ i prepared, loop.chunks[i]? = some prepared → ChunkSound B descriptor i prepared

variable {contentHash : Digest} {descriptor : SourceDescriptor} {extracted : ExtractedSource}
  {preparation : SourcePreparation}

variable {loop loop' : ChunkLoop}

/-- What a successful iteration does: nothing on a blank part, else one chunk more. -/
theorem preparePart_cases {section_ : ExtractedSection} {part : Text}
    (h : preparePart B descriptor extracted contentHash section_ loop part = .ok loop') :
    (isBlank part = true ∧ loop' = loop) ∨
    (isBlank part = false ∧ loop.chunks.length ≠ maxPreparedChunksPerSource ∧
      loop'.chunkIx = loop.chunkIx + 1 ∧
      loop'.chunks = loop.chunks ++
        [sectionChunk B descriptor extracted contentHash section_ loop.chunkIx part]) := by
  unfold preparePart at h
  split at h
  · rename_i hblank
    cases h
    exact .inl ⟨hblank, rfl⟩
  · rename_i hblank
    split at h
    · cases h
    · rename_i hroom
      simp only at h
      split at h
      · cases h
      · cases h
        exact .inr ⟨by simpa using hblank, hroom, rfl, rfl⟩

lemma preparePart_sound {section_ : ExtractedSection} {part : Text}
    (hloop : loop.Sound B descriptor)
    (h : preparePart B descriptor extracted contentHash section_ loop part = .ok loop') :
    loop'.Sound B descriptor := by
  rcases preparePart_cases B h with ⟨-, rfl⟩ | ⟨-, hroom, hix, hchunks⟩
  · exact hloop
  · have hbound := hloop.bounded
    refine ⟨?_, ?_, ?_⟩
    · simp [hix, hchunks, hloop.chunkIx]
    · simp only [hchunks, length_append, length_singleton]
      omega
    · intro i prepared hi
      rw [hchunks, getElem?_append] at hi
      split at hi
      · exact hloop.chunks i prepared hi
      · rename_i hge
        have hzero : i - loop.chunks.length = 0 := by
          by_contra hne
          obtain ⟨n, hn⟩ := Nat.exists_eq_succ_of_ne_zero hne
          simp [hn] at hi
        rw [hzero] at hi
        simp only [getElem?_cons_zero, Option.some.injEq] at hi
        have hi' : i = loop.chunkIx := by
          rw [hloop.chunkIx]
          omega
        rw [← hi, hi']
        exact sectionChunk_sound B descriptor extracted contentHash section_ loop.chunkIx part

lemma chunkLoop_sound (h : chunkLoop B descriptor extracted contentHash = .ok loop) :
    loop.Sound B descriptor := by
  refine foldlM_induction _ (ChunkLoop.Sound B descriptor) ?_ ⟨rfl, by decide, by simp⟩ h
  intro start stop section_ _ hstart hsection
  exact foldlM_induction _ (ChunkLoop.Sound B descriptor)
    (fun _ _ _ _ hs hstep => preparePart_sound B hs hstep) hstart hsection

/-- Every chunk of a prepared source is sound at its ordinal, and ordinals fit a word. -/
theorem prepareChunks_sound {chunks : List PreparedChunk}
    (h : prepareChunks B descriptor extracted contentHash = .ok chunks) :
    chunks.length ≤ maxPreparedChunksPerSource ∧
    ∀ i prepared, chunks[i]? = some prepared → ChunkSound B descriptor i prepared := by
  unfold prepareChunks at h
  cases hloop : chunkLoop B descriptor extracted contentHash with
  | error e =>
    rw [hloop] at h
    cases h
  | ok loop =>
    have hsound := chunkLoop_sound B hloop
    rw [hloop] at h
    simp only [bind, Except.bind] at h
    split at h
    · cases h
      refine ⟨by simp [maxPreparedChunksPerSource], ?_⟩
      intro i prepared hi
      rcases i with _ | i
      · simp only [getElem?_cons_zero, Option.some.injEq] at hi
        rw [← hi]
        exact carrierChunk_sound B descriptor extracted contentHash
      · simp at hi
    · cases h
      exact ⟨hsound.bounded, hsound.chunks⟩

/-! ## §5 The outcome of preparation -/

/-- What a preparation keeps of its descriptor, whatever its outcome. -/
structure SourcePreparation.Describes (preparation : SourcePreparation)
    (descriptor : SourceDescriptor) : Prop where
  schemaVersion : preparation.schemaVersion = sourcePreparationSchemaVersion
  vaultId : preparation.vaultId = descriptor.vaultId
  path : preparation.path = descriptor.path
  format : preparation.format = descriptor.format
  extractionProfile :
    preparation.extractionProfile = B.extractionProfileFor descriptor.format
  byteLength : preparation.byteLength = descriptor.byteLength
  mtimeNanos : preparation.mtimeNanos = descriptor.mtimeNanos

lemma prepareOversizedSource_cases (h : prepareOversizedSource B descriptor = .ok preparation) :
    ∃ coverage warning, coverage.isIndexed = false ∧
      preparation = skippedPreparation B descriptor none coverage warning := by
  unfold prepareOversizedSource at h
  cases hvalid : validateDescriptor descriptor with
  | error e =>
    rw [hvalid] at h
    cases h
  | ok u =>
    rw [hvalid] at h
    simp only [bind, Except.bind, pure, Except.pure] at h
    split at h
    · cases h
    · split at h
      · cases h
        exact ⟨_, _, rfl, rfl⟩
      · cases h
        exact ⟨_, _, rfl, rfl⟩

/-- Preparation of a buffer, case by case: recorded without chunks and perhaps without a hash, or
indexed with the chunks of the extracted source. -/
theorem prepareSourceBuffer_cases {bytes : Bytes}
    (h : prepareSourceBuffer B descriptor bytes = .ok preparation) :
    validateDescriptor descriptor = .ok () ∧ descriptor.byteLength = bytes.length ∧
    ((∃ contentHash coverage warning,
        (contentHash = none ∨ contentHash = some (B.hash.digest bytes)) ∧
        coverage.isIndexed = false ∧
        preparation = skippedPreparation B descriptor contentHash coverage warning) ∨
      ∃ extracted chunks,
        B.extractSource descriptor.format bytes = .ok extracted ∧
        extracted.coverage.isIndexed = true ∧
        prepareChunks B descriptor extracted (B.hash.digest bytes) = .ok chunks ∧
        preparation = indexedPreparation B descriptor bytes extracted chunks) := by
  unfold prepareSourceBuffer at h
  cases hvalid : validateDescriptor descriptor with
  | error e =>
    rw [hvalid] at h
    cases h
  | ok u =>
    rw [hvalid] at h
    simp only [bind, Except.bind, pure, Except.pure] at h
    split at h
    · cases h
    · rename_i hlength
      refine ⟨rfl, by simpa using hlength, ?_⟩
      split at h
      · obtain ⟨coverage, warning, hcoverage, rfl⟩ := prepareOversizedSource_cases B h
        exact .inl ⟨none, coverage, warning, .inl rfl, hcoverage, rfl⟩
      · split at h
        · cases h
          exact .inl ⟨_, _, _, .inr rfl, rfl, rfl⟩
        · rename_i extracted hextract
          split at h
          · rename_i hcoverage
            cases h
            exact .inl ⟨_, _, _, .inr rfl, by simpa using hcoverage, rfl⟩
          · rename_i hcoverage
            split at h
            · cases h
              exact .inl ⟨_, _, _, .inr rfl, rfl, rfl⟩
            · rename_i chunks hchunks
              cases h
              exact .inr ⟨extracted, chunks, hextract, by simpa using hcoverage, hchunks, rfl⟩

lemma prepareSourceBuffer_describes {bytes : Bytes}
    (h : prepareSourceBuffer B descriptor bytes = .ok preparation) :
    preparation.Describes B descriptor := by
  obtain ⟨-, -, ⟨_, _, _, -, -, rfl⟩ | ⟨_, _, -, -, -, rfl⟩⟩ := prepareSourceBuffer_cases B h <;>
    exact ⟨rfl, rfl, rfl, rfl, rfl, rfl, rfl⟩

lemma prepareOversizedSource_describes (h : prepareOversizedSource B descriptor = .ok preparation) :
    preparation.Describes B descriptor := by
  obtain ⟨_, _, -, rfl⟩ := prepareOversizedSource_cases B h
  exact ⟨rfl, rfl, rfl, rfl, rfl, rfl, rfl⟩

end Kwiry
