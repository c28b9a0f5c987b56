import Mathlib.Tactic.MkIffOfInductiveProp
import Kwiry.Plugin.Tables

/-!
# Index of a Generation

The index of the plugin: tables with counters beside them. A batch of source changes is planned
against the stored rows, carried out in one transaction, and only then taken into the counters,
which are advanced by the difference the batch makes. A restored index is read from an image: rows
this build does not reuse are evicted, the counters are taken from what is left, and the image is
refused where its tables disagree.

What a row stores for search, and the checks of it, are given by the build.
-/

namespace Kwiry.Plugin

open Foundations

/-! ## §1 Prepared sources -/

structure ChunkPreparation (C : Type) where
  (chunkId vaultId path : Text)
  room : Option Text
  mtime : ℕ
  contentHash : Option Text
  chunkingVersion : ℕ
  contentRole : Option ContentRole
  stored : C

/-- A source as the embedded runtime prepared it, with properties if they are well formed. -/
structure PreparedSource (M C : Type) where
  (sourceKey vaultId path : Text)
  room : Option Text
  mtime : ℕ
  format : SourceFormat
  coverage : ExtractionCoverage
  kind : SourceOutcome
  contentHash : Option Text
  frontmatter : Option PropertyBag
  chunks : List (ChunkPreparation C)
  exactAliases : List Text
  metadata : M

structure SourceRemoval where
  (vaultId path : Text)

structure ProjectedChunk (C : Type) where
  (chunkId vaultId path : Text)
  stored : C
  chunkingVersion : ℕ

structure ProjectedPreparation (M C : Type) where
  preparation : PreparedSource M C
  frontmatter : PropertyBag
  rows : List (ProjectedChunk C)

variable {M C : Type}

def isRoleTaggedFormat (format : SourceFormat) : Bool :=
  format = .excel ∨ format = .html

def taggedContentRoleFromChunkId (chunkId : Text) : Option ContentRole :=
  if isHexDigest chunkId then
    match chunkId.head? with
    | some digit =>
      if digit ∈ "0123".toList then some .primary
      else if digit ∈ "4567".toList then some .supporting
      else if digit ∈ "89ab".toList then some .latent
      else none
    | none => none
  else none

def projectChunk (preparation : PreparedSource M C) (chunk : ChunkPreparation C) :
    Except IndexFault (ProjectedChunk C) := do
  rejectIf (chunk.vaultId ≠ preparation.vaultId ∨ chunk.room ≠ preparation.room ∨
      chunk.path ≠ preparation.path ∨ chunk.mtime ≠ preparation.mtime ∨
      chunk.contentHash ≠ preparation.contentHash)
    (.error "prepared chunk does not match its source")
  rejectIf (isRoleTaggedFormat preparation.format = true ∧
      taggedContentRoleFromChunkId chunk.chunkId ≠ some (chunk.contentRole.getD .primary))
    (.error "prepared role-tagged chunk has an invalid content-role tag")
  return ⟨chunk.chunkId, chunk.vaultId, chunk.path, chunk.stored, chunk.chunkingVersion⟩

def projectPreparation (preparation : PreparedSource M C) :
    Except IndexFault (ProjectedPreparation M C) :=
  match preparation.frontmatter with
  | none => .error (.error "prepared source properties are invalid")
  | some frontmatter =>
    if preparation.kind = .indexed then do
      let rows ← preparation.chunks.mapM (projectChunk preparation)
      return ⟨preparation, frontmatter, rows⟩
    else .ok ⟨preparation, frontmatter, []⟩

/-- Canvas properties are kept for display alone. -/
def projectsSourcePropertySignals (format : SourceFormat) : Bool :=
  format ≠ .canvas

/-! ## §2 The index -/

def maxSafeInteger : ℕ := 2 ^ 53 - 1

abbrev FormatCounts := SourceFormat → ExtractionCoverage → ℕ

def FormatCounts.set (counts : FormatCounts) (format : SourceFormat)
    (coverage : ExtractionCoverage) (count : ℕ) : FormatCounts :=
  fun f c => if f = format ∧ c = coverage then count else counts f c

structure IndexLimits where
  (maxChunks maxSources databaseBytes : ℕ)

structure GenerationIndex (M C : Type) where
  tables : Tables M C
  (documentCount chunkCount zeroChunkSourceCount sourceCount : ℕ)
  formatCounts : FormatCounts
  observedChunkingVersion : Option ℕ
  closed : Bool
  limits : IndexLimits
  (vaultId sourcePolicyHash : Text)

/-- What the build compiled in, and its checks of what a row stores for search. -/
structure IndexBuild (M C : Type) where
  formatIdentity : SourceFormat → Text
  storedSourceValid : StoredSource M → Bool
  contentFault : Tables M C → Option IndexFault

def sumSafe (values : List ℕ) : Except IndexFault ℕ :=
  values.foldlM (fun total value => do
    rejectIf (maxSafeInteger < value) (.error "source accounting is invalid")
    rejectIf (maxSafeInteger < total + value) (.error "source accounting exceeded its limit")
    return total + value) 0

def isNonNegativeSafeInteger (value : ℤ) : Bool :=
  0 ≤ value ∧ value ≤ maxSafeInteger

def requireProjectedCounts (documents chunks sources : ℤ) (limits : IndexLimits) :
    Except IndexFault Unit := do
  rejectIf (isNonNegativeSafeInteger documents = false ∨ isNonNegativeSafeInteger chunks = false ∨
    isNonNegativeSafeInteger sources = false) (.error "source accounting is invalid")
  rejectIf ((limits.maxChunks : ℤ) < chunks ∨ (limits.maxSources : ℤ) < sources) .capacity

/-! ## §3 Planning a batch -/

section

variable (build : IndexBuild M C)

/-- Reads the row a query selects; what is read must be valid. -/
def parseStoredSource : List (StoredSource M) → Except IndexFault (Option (StoredSource M))
  | [] => .ok none
  | [row] => do
    rejectIf (row.formatIdentity ≠ build.formatIdentity row.sourceFormat ∨
        coverageMatchesOutcome row.extractionCoverage row.outcome = false ∨
        maxSafeInteger < row.chunkCount ∨ maxSafeInteger < row.propertyCount ∨
        maxSafeInteger < row.propertyScalarCount ∨
        row.outcome = .indexed ∧ row.contentHash = none ∨
        row.outcome = .skipped ∧ (row.chunkCount ≠ 0 ∨ row.propertyCount ≠ 0 ∨
          row.propertyScalarCount ≠ 0) ∨
        build.storedSourceValid row = false)
      (.error "stored source metadata is invalid")
    return some row
  | _ => .error (.error "stored source identity is ambiguous")

def selectSourceByIdentity (tables : Tables M C) (vaultId path : Text) :
    Except IndexFault (Option (StoredSource M)) :=
  parseStoredSource build (tables.sources.filter (·.identity = (vaultId, path)))

def selectSourceByKey (tables : Tables M C) (sourceKey : Text) :
    Except IndexFault (Option (StoredSource M)) :=
  parseStoredSource build (tables.sources.filter (·.sourceKey = sourceKey))

/-- The identities, keys and chunk ids a batch has named so far. -/
structure ChangeIdentities where
  identities : List (Text × Text)
  (keys chunkIds : List Text)

def validatePreparation (seen : ChangeIdentities) (change : ProjectedPreparation M C) :
    Except IndexFault ChangeIdentities := do
  let identity := (change.preparation.vaultId, change.preparation.path)
  rejectIf (identity ∈ seen.identities ∨ change.preparation.sourceKey ∈ seen.keys)
    (.error "source change batch contains duplicate preparations")
  let chunkIds ← change.rows.foldlM (fun ids row => do
    rejectIf (row.chunkId ∈ ids) (.error "source change batch contains duplicate chunk IDs")
    return row.chunkId :: ids) seen.chunkIds
  return ⟨identity :: seen.identities, change.preparation.sourceKey :: seen.keys, chunkIds⟩

def validateChangeIdentities (projected : List (ProjectedPreparation M C))
    (removals : List SourceRemoval) : Except IndexFault Unit := do
  let seen ← projected.foldlM validatePreparation ⟨[], [], []⟩
  let _ ← removals.foldlM (fun identities removal => do
    let identity := (removal.vaultId, removal.path)
    rejectIf (identity ∈ identities ∨ identity ∈ seen.identities)
      (.error "source change batch contains duplicate identities")
    return identity :: identities) []
  return ()

abbrev Touched (M : Type) := List (Text × StoredSource M)

def touch (touched : Touched M) : Option (StoredSource M) → Touched M
  | none => touched
  | some stored => mapSet stored.sourceKey stored touched

def touchRemoval (tables : Tables M C) (touched : Touched M) (removal : SourceRemoval) :
    Except IndexFault (Touched M) := do
  let stored ← selectSourceByIdentity build tables removal.vaultId removal.path
  return touch touched stored

def touchPreparation (tables : Tables M C) (touched : Touched M)
    (change : ProjectedPreparation M C) : Except IndexFault (Touched M) := do
  let byIdentity ← selectSourceByIdentity build tables change.preparation.vaultId
    change.preparation.path
  let byKey ← selectSourceByKey build tables change.preparation.sourceKey
  rejectIf (byIdentity.any (·.sourceKey ≠ change.preparation.sourceKey) = true)
    (.error "stored source identity does not match its prepared key")
  rejectIf (byKey.any (·.identity ≠ (change.preparation.vaultId, change.preparation.path)) = true)
    (.error "stored source key does not match its prepared identity")
  return touch (touch touched byIdentity) byKey

def removeFormatCount (counts : FormatCounts) (source : StoredSource M) :
    Except IndexFault FormatCounts := do
  let count := counts source.sourceFormat source.extractionCoverage
  rejectIf (count < 1) (.error "source format accounting is invalid")
  return counts.set source.sourceFormat source.extractionCoverage (count - 1)

def addFormatCount (counts : FormatCounts) (change : ProjectedPreparation M C) :
    Except IndexFault FormatCounts := do
  let count := counts change.preparation.format change.preparation.coverage
  rejectIf (maxSafeInteger < count + 1) (.error "source format accounting is invalid")
  return counts.set change.preparation.format change.preparation.coverage (count + 1)

def updatedSourceFormatCounts (current : FormatCounts) (removed : List (StoredSource M))
    (added : List (ProjectedPreparation M C)) : Except IndexFault FormatCounts := do
  let next ← removed.foldlM removeFormatCount current
  added.foldlM addFormatCount next

def requireSingleChunkingVersion (current : Option ℕ)
    (projected : List (ProjectedPreparation M C)) : Except IndexFault (Option ℕ) :=
  (projected.flatMap (·.rows)).foldlM (fun version row =>
    match version with
    | none => .ok (some row.chunkingVersion)
    | some known => do
      rejectIf (known ≠ row.chunkingVersion)
        (.error "source change batch mixes chunking versions")
      return some known) current

/-- What a batch will do, with the counters after it. -/
structure ChangePlan (M C : Type) where
  touched : Touched M
  projected : List (ProjectedPreparation M C)
  (nextDocuments nextChunks nextZeroChunkSources nextSources : ℤ)
  nextFormatCounts : FormatCounts
  nextChunkingVersion : Option ℕ

/-- The rows a batch replaces or removes, by key. -/
def touchedSources (tables : Tables M C) (projected : List (ProjectedPreparation M C))
    (removals : List SourceRemoval) : Except IndexFault (Touched M) := do
  let touched ← removals.foldlM (touchRemoval build tables) []
  projected.foldlM (touchPreparation build tables) touched

def projectCounts (index : GenerationIndex M C) (touched : Touched M)
    (projected : List (ProjectedPreparation M C)) : Except IndexFault (ChangePlan M C) := do
  let stored := touched.map Prod.snd
  let indexed := projected.filter (·.preparation.kind = .indexed)
  let removedDocuments := (stored.filter (·.outcome = .indexed)).length
  let removedChunks ← sumSafe (stored.map (·.chunkCount))
  let removedZeroChunkSources :=
    (stored.filter fun source => source.outcome = .indexed ∧ source.chunkCount = 0).length
  let addedChunks ← sumSafe (indexed.map (·.rows.length))
  let addedZeroChunkSources := (indexed.filter (·.rows.length = 0)).length
  let nextDocuments : ℤ := index.documentCount - removedDocuments + indexed.length
  let nextChunks : ℤ := index.chunkCount - removedChunks + addedChunks
  let nextZeroChunkSources : ℤ :=
    index.zeroChunkSourceCount - removedZeroChunkSources + addedZeroChunkSources
  let nextSources : ℤ := index.sourceCount - touched.length + projected.length
  let nextFormatCounts ← updatedSourceFormatCounts index.formatCounts stored projected
  let nextChunkingVersion ← requireSingleChunkingVersion index.observedChunkingVersion projected
  requireProjectedCounts nextDocuments nextChunks nextSources index.limits
  rejectIf (isNonNegativeSafeInteger nextZeroChunkSources = false ∨
    nextDocuments < nextZeroChunkSources) (.error "projected zero-chunk source count is invalid")
  return ⟨touched, projected, nextDocuments, nextChunks, nextZeroChunkSources, nextSources,
    nextFormatCounts, nextChunkingVersion⟩

def planChange (index : GenerationIndex M C) (preparations : List (PreparedSource M C))
    (removals : List SourceRemoval) : Except IndexFault (ChangePlan M C) := do
  rejectIf (index.closed = true) (.error "FTS5 generation is closed")
  rejectIf (preparations.isEmpty ∧ removals.isEmpty) (.error "source change batch is empty")
  let authoredChunkCount ← sumSafe
    ((preparations.filter (·.kind = .indexed)).map (·.chunks.length))
  rejectIf (index.limits.maxChunks < authoredChunkCount) .capacity
  let projected ← preparations.mapM projectPreparation
  validateChangeIdentities projected removals
  rejectIf ((∃ change ∈ projected, change.preparation.vaultId ≠ index.vaultId) ∨
      ∃ removal ∈ removals, removal.vaultId ≠ index.vaultId)
    (.error "source change belongs to a different vault")
  let touched ← touchedSources build index.tables projected removals
  projectCounts index touched projected

end

/-! ## §4 Carrying out a batch -/

/-- The UTF-16 units of a character, by which JavaScript compares texts. -/
def utf16Units (c : Char) : List ℕ :=
  if c.toNat < 65536 then [c.toNat]
  else [55296 + (c.toNat - 65536) / 1024, 56320 + (c.toNat - 65536) % 1024]

def comparePaths : Text → Text → Ordering :=
  compareOn fun path => path.flatMap utf16Units

/-- The tables in the middle of a change, with the rowids given last. -/
structure Mutation (M C : Type) where
  tables : Tables M C
  (nextChunkRowid nextPropertyRowid : ℕ)

/-- The properties of a source inserted so far. -/
structure PropertyTally (M C : Type) extends Mutation M C where
  (propertyCount propertyScalarCount : ℕ)

section Changing

variable (sqlite : Sqlite M C) (build : IndexBuild M C)

/-- The statements that delete a source. Postings go before the rows that name their rowids. -/
def deleteStatements (sourceKey : Text) : List (Statement M C) :=
  [.deleteSourceFts sourceKey, .deleteSourcePropertyFts sourceKey,
    .deleteSourceExactIdentifiers sourceKey, .deleteSourceExactAliases sourceKey,
    .deleteSourceChunks sourceKey, .deleteSourcePropertyScalars sourceKey,
    .deleteSourceProperties sourceKey, .deleteSource sourceKey]

def deleteSourceRows (tables : Tables M C) (sourceKey : Text) : Except IndexFault (Tables M C) :=
  (deleteStatements sourceKey).foldlM (fun tables statement => tables.exec sqlite statement) tables

section

variable (change : ProjectedPreparation M C)

def insertPropertyRow (tally : PropertyTally M C) (property : Text × PropertyValue) :
    Except IndexFault (PropertyTally M C) := do
  let key := change.preparation.sourceKey
  let rowid := tally.nextPropertyRowid + 1
  rejectIf (maxSafeInteger < rowid) (.error "property rowid space exhausted")
  let tables ← tally.tables.exec sqlite (.insertProperty ⟨rowid, key, property.1, property.2⟩)
  let scalars :=
    if projectsSourcePropertySignals change.preparation.format then property.2.scalars [] else []
  let tables ← scalars.foldlM (fun tables scalar => tables.exec sqlite
    (.insertPropertyScalar ⟨key, property.1, scalar.1, scalar.2⟩)) tables
  let tables ← tables.exec sqlite (.insertPropertyTextFts rowid)
  return {
    tables := tables
    nextChunkRowid := tally.nextChunkRowid
    nextPropertyRowid := rowid
    propertyCount := tally.propertyCount + 1
    propertyScalarCount := tally.propertyScalarCount + scalars.length }

def insertChunkRow (mutation : Mutation M C) (row : ProjectedChunk C) :
    Except IndexFault (Mutation M C) := do
  let rowid := mutation.nextChunkRowid + 1
  rejectIf (maxSafeInteger < rowid) (.error "chunk rowid space exhausted")
  let tables ← mutation.tables.exec sqlite (.insertChunk
    ⟨rowid, change.preparation.sourceKey, row.chunkId, row.vaultId, row.path, row.stored⟩)
  let tables ← tables.exec sqlite (.insertChunkFts rowid)
  let tables ← tables.exec sqlite (.insertExactIdentifierFts rowid)
  return ⟨tables, rowid, mutation.nextPropertyRowid⟩

/-- The properties of an indexed source, in the order of their names. -/
def ProjectedPreparation.properties : List (Text × PropertyValue) :=
  if change.preparation.kind = .indexed then
    sortBy (fun a b => comparePaths a.1 b.1) change.frontmatter.entries
  else []

def storedSource (propertyCount propertyScalarCount : ℕ) : StoredSource M where
  sourceKey := change.preparation.sourceKey
  vaultId := change.preparation.vaultId
  path := change.preparation.path
  sourceFormat := change.preparation.format
  formatIdentity := build.formatIdentity change.preparation.format
  extractionCoverage := change.preparation.coverage
  outcome := change.preparation.kind
  contentHash := change.preparation.contentHash
  exactAliases := change.preparation.exactAliases
  metadata := change.preparation.metadata
  chunkCount := change.rows.length
  propertyCount := propertyCount
  propertyScalarCount := propertyScalarCount

end

/-- The source row lands last, when its tallies are known. -/
def insertChange (mutation : Mutation M C) (change : ProjectedPreparation M C) :
    Except IndexFault (Mutation M C) := do
  let tally ← change.properties.foldlM (insertPropertyRow sqlite change) ⟨mutation, 0, 0⟩
  let mutation ← change.rows.foldlM (insertChunkRow sqlite change) tally.toMutation
  let tables ← change.preparation.exactAliases.foldlM (fun tables alias' =>
    tables.exec sqlite (.insertExactAlias alias' change.preparation.sourceKey)) mutation.tables
  let tables ← tables.exec sqlite
    (.insertSource (storedSource build change tally.propertyCount tally.propertyScalarCount))
  return { mutation with tables := tables }

/-! ## §5 Reconciliation -/

def maximum (rowids : List ℕ) : ℕ :=
  rowids.foldl max 0

def requireRowidSeed (seed : ℕ) : Except IndexFault ℕ := do
  rejectIf (maxSafeInteger < seed) (.error "chunk rowid seed is invalid")
  return seed

/-- Postings and rows under the same positive rowids: no orphan, none missing, as many. -/
@[mk_iff]
structure PostingsMatch (postings : FtsTable) (rowids : List ℕ) : Prop where
  rowsPositive : 0 ∉ rowids
  positive : 0 ∉ postings.docsize
  noOrphan : ∀ rowid ∈ postings.docsize, rowid ∈ rowids
  noneMissing : ∀ rowid ∈ rowids, rowid ∈ postings.docsize
  asMany : rowids.length = postings.docsize.length

instance (postings : FtsTable) (rowids : List ℕ) : Decidable (PostingsMatch postings rowids) :=
  decidable_of_iff' _ (postingsMatch_iff postings rowids)

/-- The tallies of a source row are those of the rows it owns. -/
def TalliesMatch (tables : Tables M C) (source : StoredSource M) : Prop :=
  source.chunkCount = (tables.chunks.filter (·.sourceKey = source.sourceKey)).length ∧
    source.propertyCount = (tables.properties.filter (·.sourceKey = source.sourceKey)).length ∧
    source.propertyScalarCount = (tables.scalars.filter (·.sourceKey = source.sourceKey)).length

instance (tables : Tables M C) (source : StoredSource M) : Decidable (TalliesMatch tables source) :=
  inferInstanceAs (Decidable (_ ∧ _))

def Tables.sourceKeys (tables : Tables M C) : List Text :=
  tables.sources.map StoredSource.sourceKey

def Tables.indexedKeys (tables : Tables M C) : List Text :=
  (tables.sources.filter (·.outcome = .indexed)).map StoredSource.sourceKey

def PropertyRow.identity (row : PropertyRow) : Text × Text :=
  (row.sourceKey, row.propertyName)

/-- The sums over source rows are the sizes of the tables. -/
@[mk_iff]
structure SumsMatch (tables : Tables M C) : Prop where
  chunks : (tables.sources.map (·.chunkCount)).sum = tables.chunks.length
  properties : (tables.sources.map (·.propertyCount)).sum = tables.properties.length
  scalars : (tables.sources.map (·.propertyScalarCount)).sum = tables.scalars.length
  aliases : tables.exactAliases.length = (tables.sources.map (·.exactAliases.length)).sum

instance (tables : Tables M C) : Decidable (SumsMatch tables) :=
  decidable_of_iff' _ (sumsMatch_iff tables)

/-- No row outlives its owner, and skipped sources own none. -/
@[mk_iff]
structure OwnersMatch (tables : Tables M C) : Prop where
  aliases : ∀ pair ∈ tables.exactAliases, pair.2 ∈ tables.sourceKeys
  chunks : ∀ chunk ∈ tables.chunks, chunk.sourceKey ∈ tables.sourceKeys
  properties : ∀ property ∈ tables.properties, property.sourceKey ∈ tables.indexedKeys
  scalars : ∀ scalar ∈ tables.scalars,
    (scalar.sourceKey, scalar.propertyName) ∈ tables.properties.map PropertyRow.identity
  skipped : ∀ source ∈ tables.sources, source.outcome = .skipped →
    source.sourceKey ∉ tables.chunks.map ChunkRow.sourceKey ∧
      source.sourceKey ∉ tables.properties.map PropertyRow.sourceKey ∧
      source.sourceKey ∉ tables.scalars.map ScalarRow.sourceKey

instance (tables : Tables M C) : Decidable (OwnersMatch tables) :=
  decidable_of_iff' _ (ownersMatch_iff tables)

/-- What the reconciliation query counts, compared as its caller compares it. -/
@[mk_iff]
structure Reconciles (vaultId sourcePolicyHash : Text) (tables : Tables M C)
    (expectedChunks expectedDocuments expectedSources : ℤ) : Prop where
  identity : tables.generationIdentity.count (vaultId, sourcePolicyHash) = 1
  chunkFts : PostingsMatch tables.chunksFts (tables.chunks.map ChunkRow.rowid)
  exactIdentifierFts : PostingsMatch tables.exactIdentifierFts (tables.chunks.map ChunkRow.rowid)
  propertyFts : PostingsMatch tables.propertyTextFts (tables.properties.map PropertyRow.rowid)
  chunks : (tables.chunks.length : ℤ) = expectedChunks
  sources : (tables.sources.length : ℤ) = expectedSources
  documents : (tables.indexedKeys.length : ℤ) = expectedDocuments
  sums : SumsMatch tables
  owners : OwnersMatch tables
  tallies : ∀ source ∈ tables.sources, TalliesMatch tables source
  formatIdentities : ∀ source ∈ tables.sources,
    source.formatIdentity = build.formatIdentity source.sourceFormat

instance (vaultId sourcePolicyHash : Text) (tables : Tables M C) (chunks documents sources : ℤ) :
    Decidable (Reconciles build vaultId sourcePolicyHash tables chunks documents sources) :=
  decidable_of_iff' _
    (reconciles_iff build vaultId sourcePolicyHash tables chunks documents sources)

def runReconciliationCheck (vaultId sourcePolicyHash : Text) (tables : Tables M C)
    (expectedChunks expectedDocuments expectedSources : ℤ) : Except IndexFault Unit := do
  raise (sqlite.integrityFault tables)
  rejectIf (¬ Reconciles build vaultId sourcePolicyHash tables expectedChunks expectedDocuments
    expectedSources) (.integrity "FTS5 index and chunk metadata disagree")

def requireDatabaseWithinLimit (limits : IndexLimits) (tables : Tables M C) :
    Except IndexFault Unit := do
  let bytes ← sqlite.databaseBytes tables
  rejectIf (limits.databaseBytes < bytes) .capacity

/-! ## §6 Batches -/

/-- The change a batch makes, inside its transaction. The rowids start above those of rows and of
postings, before anything is deleted. -/
def carryOut (index : GenerationIndex M C) (plan : ChangePlan M C) (verifyIntegrity : Bool)
    (tables : Tables M C) : Except IndexFault (Tables M C) := do
  let nextChunkRowid ← requireRowidSeed (max (maximum (tables.chunks.map ChunkRow.rowid))
    (max (maximum tables.chunksFts.docsize) (maximum tables.exactIdentifierFts.docsize)))
  let nextPropertyRowid ← requireRowidSeed
    (max (maximum (tables.properties.map PropertyRow.rowid))
      (maximum tables.propertyTextFts.docsize))
  let tables ← plan.touched.foldlM (fun tables stored =>
    deleteSourceRows sqlite tables stored.2.sourceKey) tables
  let mutation ← plan.projected.foldlM (insertChange sqlite build)
    ⟨tables, nextChunkRowid, nextPropertyRowid⟩
  let check := runReconciliationCheck sqlite build index.vaultId index.sourcePolicyHash
    mutation.tables plan.nextChunks plan.nextDocuments plan.nextSources
  (if verifyIntegrity then check else .ok ())
  requireDatabaseWithinLimit sqlite index.limits mutation.tables
  return mutation.tables

structure SourceChangeCall (M C : Type) where
  preparations : List (PreparedSource M C)
  removals : List SourceRemoval
  verifyIntegrity : Bool

/-- One batch, with what it throws and the index it leaves. -/
def applySourceChanges (call : SourceChangeCall M C) (index : GenerationIndex M C) :
    Except IndexFault Unit × GenerationIndex M C :=
  match planChange build index call.preparations call.removals with
  | .error fault => (.error fault, index)
  | .ok plan =>
    match transaction sqlite (carryOut sqlite build index plan call.verifyIntegrity)
        index.tables with
    | (.error fault, tables) => (.error fault, { index with tables := tables })
    | (.ok (), tables) =>
      (.ok (), { index with
        tables := tables
        documentCount := plan.nextDocuments.toNat
        chunkCount := plan.nextChunks.toNat
        zeroChunkSourceCount := plan.nextZeroChunkSources.toNat
        sourceCount := plan.nextSources.toNat
        formatCounts := plan.nextFormatCounts
        observedChunkingVersion := plan.nextChunkingVersion })

/-! ## §7 Opening -/

def openFresh (limits : IndexLimits) (vaultId sourcePolicyHash : Text) : GenerationIndex M C where
  tables := .created vaultId sourcePolicyHash
  documentCount := 0
  chunkCount := 0
  zeroChunkSourceCount := 0
  sourceCount := 0
  formatCounts := fun _ _ => 0
  observedChunkingVersion := none
  closed := false
  limits := limits
  vaultId := vaultId
  sourcePolicyHash := sourcePolicyHash

/-- Deletes the sources a query selects. -/
def evictProjectedSources (evicted : StoredSource M → Bool) (tables : Tables M C) :
    Except IndexFault (Tables M C) :=
  (tables.sources.filter evicted).foldlM (fun tables source =>
    deleteSourceRows sqlite tables source.sourceKey) tables

/-- Evicts what another build has prepared, then what is no longer enabled. -/
def projectRestoredSources (enabledFormats : List SourceFormat) (tables : Tables M C) :
    Except IndexFault (Tables M C) := do
  let tables ← evictProjectedSources sqlite
    (fun source => source.formatIdentity ≠ build.formatIdentity source.sourceFormat) tables
  evictProjectedSources sqlite (fun source => source.sourceFormat ∉ enabledFormats) tables

structure RestoredInventory where
  (documents chunks zeroChunkSources sources : ℕ)
  sourceFormatCounts : FormatCounts

/-- Counts one source row, if it is valid and new. -/
def countRestoredSource (vaultId : Text) (state : RestoredInventory × List Text)
    (row : StoredSource M) : Except IndexFault (RestoredInventory × List Text) := do
  let invalid : IndexFault := .cacheImageInvalid "cache source inventory is invalid"
  let source ← (parseStoredSource build [row]).mapError fun _ => invalid
  rejectIf (source.isNone ∨ row.vaultId ≠ vaultId ∨ row.sourceKey ∈ state.2) invalid
  let inventory := state.1
  let count := inventory.sourceFormatCounts row.sourceFormat row.extractionCoverage
  return ({ inventory with
    sourceFormatCounts :=
      inventory.sourceFormatCounts.set row.sourceFormat row.extractionCoverage (count + 1)
    documents := inventory.documents + if row.outcome = .indexed then 1 else 0
    zeroChunkSources := inventory.zeroChunkSources +
      if row.outcome = .indexed ∧ row.chunkCount = 0 then 1 else 0 },
    row.sourceKey :: state.2)

def validateRestoredChunk (tables : Tables M C) (row : ChunkRow C) : Except IndexFault Unit :=
  rejectIf (¬ ∃ source ∈ tables.sources, source.sourceKey = row.sourceKey ∧
      source.outcome = .indexed ∧ source.vaultId = row.vaultId ∧ source.path = row.path)
    (.cacheImageInvalid "cache chunk identity does not match its source")

def readRestoredInventory (limits : IndexLimits) (vaultId sourcePolicyHash : Text)
    (tables : Tables M C) : Except IndexFault RestoredInventory := do
  rejectIf (tables.generationIdentity ≠ [(vaultId, sourcePolicyHash)])
    (.cacheImageInvalid "cache vault identity is invalid")
  rejectIf (limits.maxSources < tables.sources.length) .capacity
  let (inventory, _) ← tables.sources.foldlM (countRestoredSource build vaultId)
    (⟨0, 0, 0, 0, fun _ _ => 0⟩, [])
  raise (build.contentFault tables)
  rejectIf (limits.maxChunks < tables.chunks.length) .capacity
  tables.chunks.forM (validateRestoredChunk tables)
  return { inventory with chunks := tables.chunks.length, sources := tables.sources.length }

/-- Postings and rows have the same rowids. -/
def validateBijection (message : String) (postings : FtsTable) (rowids : List ℕ) :
    Except IndexFault Unit :=
  rejectIf (rowids.length ≠ postings.docsize.length ∨ (∃ rowid ∈ rowids, rowid ∉ postings.docsize) ∨
    ∃ rowid ∈ postings.docsize, rowid ∉ rowids) (.cacheImageInvalid message)

/-- Clears the property postings and inserts one for each property whose source is stored. -/
def rebuildCanonicalPropertyFts (tables : Tables M C) : Except IndexFault (Tables M C) :=
  let rows := tables.properties.filter fun p =>
    p.sourceKey ∈ tables.sources.map StoredSource.sourceKey
  rows.foldlM (fun tables row => tables.exec sqlite (.insertPropertyTextFts row.rowid))
    { tables with propertyTextFts := { tables.propertyTextFts with docsize := [] } }

def openRestored (image : Tables M C) (chunkingVersion : ℕ) (limits : IndexLimits)
    (vaultId sourcePolicyHash : Text) (enabledFormats : List SourceFormat) :
    Except IndexFault (GenerationIndex M C) := do
  requireDatabaseWithinLimit sqlite limits image
  raise (sqlite.integrityFault image)
  rejectIf (image.constraintsHold = false)
    (.cacheImageInvalid "cache image failed SQLite integrity validation")
  let tables ← projectRestoredSources sqlite build enabledFormats image
  raise (sqlite.commitFault tables)
  requireDatabaseWithinLimit sqlite limits tables
  let inventory ← readRestoredInventory build limits vaultId sourcePolicyHash tables
  validateBijection "cache chunk postings do not match canonical rows" tables.chunksFts
    (tables.chunks.map ChunkRow.rowid)
  validateBijection "cache exact identifier rows do not match canonical chunks"
    tables.exactIdentifierFts (tables.chunks.map ChunkRow.rowid)
  validateBijection "cache property postings do not match canonical rows" tables.propertyTextFts
    (tables.properties.map PropertyRow.rowid)
  let tables ← rebuildCanonicalPropertyFts sqlite tables
  raise (sqlite.commitFault tables)
  requireDatabaseWithinLimit sqlite limits tables
  requireProjectedCounts inventory.documents inventory.chunks inventory.sources limits
  runReconciliationCheck sqlite build vaultId sourcePolicyHash tables inventory.chunks
    inventory.documents inventory.sources
  return {
    tables := tables
    documentCount := inventory.documents
    chunkCount := inventory.chunks
    zeroChunkSourceCount := inventory.zeroChunkSources
    sourceCount := inventory.sources
    formatCounts := inventory.sourceFormatCounts
    observedChunkingVersion := if inventory.chunks = 0 then none else some chunkingVersion
    closed := false
    limits := limits
    vaultId := vaultId
    sourcePolicyHash := sourcePolicyHash }

end Changing

end Kwiry.Plugin
