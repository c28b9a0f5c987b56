import Kwiry.Foundations.Insertion
import Kwiry.Ranking.Properties

/-!
# Tables of an Index

The SQLite tables behind an index of the plugin and the statements that change them. A statement
fails when a constraint of the schema does not hold, and SQLite may fail at any statement. The
texts that are searched do not bear on which rows exist: what else a row stores is kept as one
value.

A full-text table answers queries about its rows from the table of its document sizes. A row under
a rowid that is taken replaces the entry there and leaves the old postings behind.
-/

namespace Kwiry.Plugin

open Foundations

/-! ## §1 Errors -/

/-- What an operation of an index throws. -/
inductive IndexFault where
  | error (message : String)
  | capacity
  | integrity (message : String)
  | cacheImageInvalid (message : String)
  | sqlite (resultCode : ℕ)

def sqliteFull : ℕ := 13

def sqliteConstraint : ℕ := 19

def translateSqliteCapacityError : IndexFault → IndexFault
  | .sqlite code => if code = sqliteFull then .capacity else .sqlite code
  | fault => fault

/-! ## §2 Rows -/

/-- A full-text table: its rows, and the rowids of postings that another row has replaced. -/
structure FtsTable where
  (docsize shadowed : List ℕ)

namespace FtsTable

def empty : FtsTable := ⟨[], []⟩

/-- A rowid that is taken is accepted silently. -/
def insert (table : FtsTable) (rowid : ℕ) : FtsTable :=
  if rowid ∈ table.docsize then { table with shadowed := rowid :: table.shadowed }
  else { table with docsize := table.docsize ++ [rowid] }

def deleteRows (table : FtsTable) (rowids : List ℕ) : FtsTable :=
  { table with docsize := table.docsize.filter (· ∉ rowids) }

end FtsTable

inductive SourceOutcome where
  | indexed | skipped
  deriving DecidableEq

structure StoredSource (M : Type) where
  (sourceKey vaultId path : Text)
  sourceFormat : SourceFormat
  formatIdentity : Text
  extractionCoverage : ExtractionCoverage
  outcome : SourceOutcome
  contentHash : Option Text
  exactAliases : List Text
  metadata : M
  (chunkCount propertyCount propertyScalarCount : ℕ)

def StoredSource.identity {M : Type} (source : StoredSource M) : Text × Text :=
  (source.vaultId, source.path)

structure ChunkRow (C : Type) where
  rowid : ℕ
  (sourceKey chunkId vaultId path : Text)
  stored : C

structure PropertyRow where
  rowid : ℕ
  (sourceKey propertyName : Text)
  value : PropertyValue

structure ScalarRow where
  (sourceKey propertyName jsonPointer : Text)
  scalar : PropertyValue

/-- The tables; `generationIdentity` holds vault ids with source policy hashes. -/
structure Tables (M C : Type) where
  generationIdentity : List (Text × Text)
  sources : List (StoredSource M)
  chunks : List (ChunkRow C)
  (chunksFts exactIdentifierFts : FtsTable)
  exactAliases : List (Text × Text)
  properties : List PropertyRow
  scalars : List ScalarRow
  propertyTextFts : FtsTable

variable {M C : Type}

namespace Tables

def created (vaultId sourcePolicyHash : Text) : Tables M C :=
  ⟨[(vaultId, sourcePolicyHash)], [], [], .empty, .empty, [], [], [], .empty⟩

def chunkRowids (tables : Tables M C) (sourceKey : Text) : List ℕ :=
  (tables.chunks.filter (·.sourceKey = sourceKey)).map ChunkRow.rowid

def propertyRowids (tables : Tables M C) (sourceKey : Text) : List ℕ :=
  (tables.properties.filter (·.sourceKey = sourceKey)).map PropertyRow.rowid

end Tables

/-! ## §3 Constraints -/

/-- `CHECK(length(format_identity) = 64 AND format_identity NOT GLOB '*[^0-9a-f]*')` -/
def isHexDigest (text : Text) : Bool :=
  text.length = 64 ∧ ∀ c ∈ text, c ∈ "0123456789abcdef".toList

def coverageMatchesOutcome (coverage : ExtractionCoverage) (outcome : SourceOutcome) : Bool :=
  coverage.isIndexed = decide (outcome = .indexed)

/-- The `CHECK`s of a source row on columns that are modelled. -/
def StoredSource.checks (source : StoredSource M) : Bool :=
  isHexDigest source.formatIdentity ∧
    (source.outcome = .skipped ∨ source.contentHash ≠ none) ∧
    coverageMatchesOutcome source.extractionCoverage source.outcome ∧
    (source.outcome = .indexed ∨ source.chunkCount = 0 ∧ source.propertyCount = 0 ∧
      source.propertyScalarCount = 0)

def ScalarRow.identity (scalar : ScalarRow) : Text × Text × Text :=
  (scalar.sourceKey, scalar.propertyName, scalar.jsonPointer)

/-- Keys are unique and rows pass their checks. -/
def Tables.constraintsHold (tables : Tables M C) : Bool :=
  (tables.sources.map StoredSource.sourceKey).Nodup ∧
    (tables.sources.map StoredSource.identity).Nodup ∧
    (∀ source ∈ tables.sources, source.checks) ∧
    (tables.chunks.map ChunkRow.rowid).Nodup ∧
    (tables.chunks.map ChunkRow.chunkId).Nodup ∧
    (tables.properties.map PropertyRow.rowid).Nodup ∧
    (tables.properties.map fun p => (p.sourceKey, p.propertyName)).Nodup ∧
    (tables.scalars.map ScalarRow.identity).Nodup ∧
    tables.exactAliases.Nodup ∧
    tables.chunksFts.docsize.Nodup ∧ tables.exactIdentifierFts.docsize.Nodup ∧
    tables.propertyTextFts.docsize.Nodup

/-! ## §4 Statements -/

inductive Statement (M C : Type) where
  | deleteSourceFts (sourceKey : Text)
  | deleteSourcePropertyFts (sourceKey : Text)
  | deleteSourceExactIdentifiers (sourceKey : Text)
  | deleteSourceExactAliases (sourceKey : Text)
  | deleteSourceChunks (sourceKey : Text)
  | deleteSourcePropertyScalars (sourceKey : Text)
  | deleteSourceProperties (sourceKey : Text)
  | deleteSource (sourceKey : Text)
  | insertProperty (row : PropertyRow)
  | insertPropertyScalar (row : ScalarRow)
  | insertPropertyTextFts (rowid : ℕ)
  | insertChunk (row : ChunkRow C)
  | insertChunkFts (rowid : ℕ)
  | insertExactIdentifierFts (rowid : ℕ)
  | insertExactAlias (value sourceKey : Text)
  | insertSource (row : StoredSource M)

def constraintFailed : IndexFault := .sqlite sqliteConstraint

/-- What a statement does when SQLite itself does not fail. -/
def Tables.perform (tables : Tables M C) : Statement M C → Except IndexFault (Tables M C)
  | .deleteSourceFts key =>
    .ok { tables with chunksFts := tables.chunksFts.deleteRows (tables.chunkRowids key) }
  | .deleteSourcePropertyFts key =>
    .ok { tables with
      propertyTextFts := tables.propertyTextFts.deleteRows (tables.propertyRowids key) }
  | .deleteSourceExactIdentifiers key =>
    .ok { tables with
      exactIdentifierFts := tables.exactIdentifierFts.deleteRows (tables.chunkRowids key) }
  | .deleteSourceExactAliases key =>
    .ok { tables with exactAliases := tables.exactAliases.filter (·.2 ≠ key) }
  | .deleteSourceChunks key =>
    .ok { tables with chunks := tables.chunks.filter (·.sourceKey ≠ key) }
  | .deleteSourcePropertyScalars key =>
    .ok { tables with scalars := tables.scalars.filter (·.sourceKey ≠ key) }
  | .deleteSourceProperties key =>
    .ok { tables with properties := tables.properties.filter (·.sourceKey ≠ key) }
  | .deleteSource key =>
    .ok { tables with sources := tables.sources.filter (·.sourceKey ≠ key) }
  | .insertProperty row => do
    rejectIf (row.rowid = 0 ∨ row.rowid ∈ tables.properties.map PropertyRow.rowid ∨
      (row.sourceKey, row.propertyName) ∈
        tables.properties.map fun p => (p.sourceKey, p.propertyName)) constraintFailed
    return { tables with properties := tables.properties ++ [row] }
  | .insertPropertyScalar row => do
    rejectIf (row.identity ∈ tables.scalars.map ScalarRow.identity) constraintFailed
    return { tables with scalars := tables.scalars ++ [row] }
  | .insertPropertyTextFts rowid =>
    .ok { tables with propertyTextFts := tables.propertyTextFts.insert rowid }
  | .insertChunk row => do
    rejectIf (row.rowid = 0 ∨ row.rowid ∈ tables.chunks.map ChunkRow.rowid ∨
      row.chunkId ∈ tables.chunks.map ChunkRow.chunkId) constraintFailed
    return { tables with chunks := tables.chunks ++ [row] }
  | .insertChunkFts rowid =>
    .ok { tables with chunksFts := tables.chunksFts.insert rowid }
  | .insertExactIdentifierFts rowid =>
    .ok { tables with exactIdentifierFts := tables.exactIdentifierFts.insert rowid }
  | .insertExactAlias value key => do
    rejectIf ((value, key) ∈ tables.exactAliases) constraintFailed
    return { tables with exactAliases := tables.exactAliases ++ [(value, key)] }
  | .insertSource row => do
    rejectIf (row.sourceKey ∈ tables.sources.map StoredSource.sourceKey ∨
      row.identity ∈ tables.sources.map StoredSource.identity ∨ row.checks = false)
      constraintFailed
    return { tables with sources := tables.sources ++ [row] }

/-- How SQLite fails: at statements, at the end of transactions, and in measuring the database. -/
structure Sqlite (M C : Type) where
  statementFault : Statement M C → Tables M C → Option IndexFault
  (commitFault integrityFault : Tables M C → Option IndexFault)
  databaseBytes : Tables M C → Except IndexFault ℕ

variable (sqlite : Sqlite M C)

/-- A call that may throw. -/
def raise : Option IndexFault → Except IndexFault Unit
  | none => .ok ()
  | some fault => .error fault

def Tables.exec (statement : Statement M C) (tables : Tables M C) :
    Except IndexFault (Tables M C) := do
  raise (sqlite.statementFault statement tables)
  tables.perform statement

/-- A change that is committed, or taken back as a whole. -/
def transaction (change : Tables M C → Except IndexFault (Tables M C)) (tables : Tables M C) :
    Except IndexFault Unit × Tables M C :=
  match (do
    let changed ← change tables
    raise (sqlite.commitFault changed)
    return changed) with
  | .ok changed => (.ok (), changed)
  | .error fault => (.error (translateSqliteCapacityError fault), tables)

end Kwiry.Plugin
