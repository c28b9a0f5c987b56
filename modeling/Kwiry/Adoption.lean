import Kwiry.Foundations.TreeMaps
import Kwiry.Manifest
import Kwiry.Serde

/-!
# Adopting a Manifest from Disk

`manifest.rs`, read as the text it is: a manifest on disk may hold rows that another build wrote.
Its versions and totals are checked when it is read, the identity of each row only when it is
adopted: the rows under an identity that is not the running one are removed, and reported.

The running identities are arbitrary here. Strings of a record are texts and not yet digests; the
row a build records is `ManifestFile.recorded`.
-/

namespace Kwiry

open Foundations List
open Cache (Json key)

/-- What a build compiles in: for each format the extractors and the identity its rows are stamped
with, and the fingerprint of the whole policy. -/
structure FormatIdentities where
  extractionProfileFor : SourceFormat → ExtractionProfile
  formatIdentityFingerprint : SourceFormat → Text
  extractionPolicyFingerprint : Text

/-- The identities of a build. -/
def Build.formatIdentities (B : Build) (extractionPolicyFingerprint : Text) : FormatIdentities :=
  ⟨B.extractionProfileFor, fun format => hexText (B.formatIdentityFingerprint format),
    extractionPolicyFingerprint⟩

/-- `serde_json`: the pretty text of a value, the value of a text, and what is said of a text that
has none. -/
structure SerdeJson where
  toVecPretty : Json → Bytes
  fromSlice : Bytes → Option Json
  error : Bytes → String

/-- A value reads back from the file it was written to. -/
def SerdeJson.Reads (J : SerdeJson) (value : Json) : Prop :=
  J.fromSlice (J.toVecPretty value ++ [10]) = some value

/-! ## §1 Names -/

namespace SourceFormat

/-- The position of a format in the order the source derives. -/
def ordinal : SourceFormat → ℕ
  | markdown => 0
  | text => 1
  | base => 2
  | canvas => 3
  | docx => 4
  | pdf => 5
  | excalidraw => 6
  | excel => 7
  | html => 8

lemma ordinal_injective : Function.Injective ordinal := by
  intro a b h
  cases a <;> cases b <;> first | rfl | cases h

instance : Ord SourceFormat := ⟨compareOn ordinal⟩

instance : Std.TransOrd SourceFormat := inferInstanceAs (Std.TransCmp (compareOn ordinal))

instance : Std.LawfulEqOrd SourceFormat := lawfulEqCmp_compareOn ordinal ordinal_injective

lemma mem_all (format : SourceFormat) : format ∈ all := by
  cases format <;> decide

def codec : Codec SourceFormat :=
  .unitEnum all asStr mem_all (by intro a b h; revert h; cases a <;> cases b <;> decide)

end SourceFormat

def ExtractionProfile.codec : Codec ExtractionProfile :=
  .unitEnum [.none, .portable, .enhanced] asStr (by intro a; cases a <;> decide)
    (by intro a b h; revert h; cases a <;> cases b <;> decide)

def ExtractionCoverage.all : List ExtractionCoverage :=
  [.indexedComplete, .indexedPartial, .skippedNoExtractableText, .unreadable, .quarantined]

def ExtractionCoverage.asStr : ExtractionCoverage → String
  | indexedComplete => "indexed-complete"
  | indexedPartial => "indexed-partial"
  | skippedNoExtractableText => "skipped-no-extractable-text"
  | unreadable => "unreadable"
  | quarantined => "quarantined"

def ExtractionCoverage.codec : Codec ExtractionCoverage :=
  .unitEnum all asStr (by intro a; cases a <;> decide)
    (by intro a b h; revert h; cases a <;> cases b <;> decide)

def ManifestFileOutcome.asStr : ManifestFileOutcome → String
  | indexed => "indexed"
  | skipped => "skipped"

def ManifestFileOutcome.codec : Codec ManifestFileOutcome :=
  .unitEnum [.indexed, .skipped] asStr (by intro a; cases a <;> decide)
    (by intro a b h; revert h; cases a <;> cases b <;> decide)

def Codec.optionalText : Codec (Option Text) :=
  Codec.text.optional fun _ h => by cases h

namespace OnDisk

/-! ## §2 Rows -/

structure ResourceKey where
  (tenantId vaultId roomId : Text)

/-- A row of the manifest. -/
structure ManifestFile where
  (vaultId path : Text)
  format : SourceFormat
  extractionProfile : ExtractionProfile
  formatIdentity : Option Text
  coverage : ExtractionCoverage
  (contentHash registrationFingerprint : Text)
  resource : Option ResourceKey
  byteLength : Fin (2 ^ 64)
  mtimeNanos : Fin (2 ^ 128)
  chunkCount : Fin (2 ^ 64)
  outcome : ManifestFileOutcome
  warning : Option Text

/-- Whether a row was produced under the running identity of its format. An absent identity is a
refusal, and so is a profile that contradicts the identity. -/
def ManifestFile.identityMatches (ids : FormatIdentities) (file : ManifestFile) : Bool :=
  if file.extractionProfile ≠ ids.extractionProfileFor file.format then
    false
  else
    match file.formatIdentity with
    | some actual => actual = ids.formatIdentityFingerprint file.format
    | none => false

def ResourceKey.fields : List RecordField :=
  [⟨key "tenant_id", false⟩, ⟨key "vault_id", false⟩, ⟨key "room_id", false⟩]

def ResourceKey.toJson (resource : ResourceKey) : Json :=
  .object [(key "tenant_id", .string resource.tenantId), (key "vault_id", .string resource.vaultId),
    (key "room_id", .string resource.roomId)]

def ResourceKey.fromJson (json : Json) : Option ResourceKey := do
  let fields ← fieldsOf ResourceKey.fields json
  let tenantId ← requiredField .text (key "tenant_id") fields
  let vaultId ← requiredField .text (key "vault_id") fields
  let roomId ← requiredField .text (key "room_id") fields
  return ⟨tenantId, vaultId, roomId⟩

def ResourceKey.codec : Codec ResourceKey where
  write := toJson
  read := fromJson
  read_write resource := by
    rw [fromJson, toJson,
      fieldsOf_object _ (ResourceKey.fields.map RecordField.name) rfl (by decide)]
    rfl

/-- The names of the fields, in the order of the source, and which have a default. -/
def ManifestFile.fields : List RecordField :=
  [⟨key "vault_id", false⟩, ⟨key "path", false⟩, ⟨key "format", false⟩,
    ⟨key "extraction_profile", false⟩, ⟨key "format_identity", true⟩, ⟨key "coverage", false⟩,
    ⟨key "content_hash", false⟩, ⟨key "registration_fingerprint", false⟩, ⟨key "resource", true⟩,
    ⟨key "byte_length", false⟩, ⟨key "mtime_nanos", false⟩, ⟨key "chunk_count", false⟩,
    ⟨key "outcome", false⟩, ⟨key "warning", false⟩]

def ResourceKey.optionalCodec : Codec (Option ResourceKey) :=
  ResourceKey.codec.optional fun _ h => by cases h

/-- The fields of a row; an identity or a resource that is not there is left out. -/
def ManifestFile.entries (file : ManifestFile) : List (Text × Json) :=
  [(key "vault_id", Codec.text.write file.vaultId), (key "path", Codec.text.write file.path),
    (key "format", SourceFormat.codec.write file.format),
    (key "extraction_profile", ExtractionProfile.codec.write file.extractionProfile)] ++
  (file.formatIdentity.map fun identity =>
    (key "format_identity", Codec.optionalText.write (some identity))).toList ++
  [(key "coverage", ExtractionCoverage.codec.write file.coverage),
    (key "content_hash", Codec.text.write file.contentHash),
    (key "registration_fingerprint", Codec.text.write file.registrationFingerprint)] ++
  (file.resource.map fun resource =>
    (key "resource", ResourceKey.optionalCodec.write (some resource))).toList ++
  [(key "byte_length", (Codec.bounded _).write file.byteLength),
    (key "mtime_nanos", (Codec.bounded _).write file.mtimeNanos),
    (key "chunk_count", (Codec.bounded _).write file.chunkCount),
    (key "outcome", ManifestFileOutcome.codec.write file.outcome),
    (key "warning", Codec.optionalText.write file.warning)]

def ManifestFile.toJson (file : ManifestFile) : Json := .object file.entries

def ManifestFile.fromJson (json : Json) : Option ManifestFile := do
  let fields ← fieldsOf ManifestFile.fields json
  let vaultId ← requiredField .text (key "vault_id") fields
  let path ← requiredField .text (key "path") fields
  let format ← requiredField SourceFormat.codec (key "format") fields
  let extractionProfile ← requiredField ExtractionProfile.codec (key "extraction_profile") fields
  let formatIdentity ← defaultedField .optionalText none (key "format_identity") fields
  let coverage ← requiredField ExtractionCoverage.codec (key "coverage") fields
  let contentHash ← requiredField .text (key "content_hash") fields
  let registrationFingerprint ← requiredField .text (key "registration_fingerprint") fields
  let resource ← defaultedField ResourceKey.optionalCodec none (key "resource") fields
  let byteLength ← requiredField (.bounded _) (key "byte_length") fields
  let mtimeNanos ← requiredField (.bounded _) (key "mtime_nanos") fields
  let chunkCount ← requiredField (.bounded _) (key "chunk_count") fields
  let outcome ← requiredField ManifestFileOutcome.codec (key "outcome") fields
  -- an option that is missing is nothing
  let warning ← defaultedField .optionalText none (key "warning") fields
  return ⟨vaultId, path, format, extractionProfile, formatIdentity, coverage, contentHash,
    registrationFingerprint, resource, byteLength, mtimeNanos, chunkCount, outcome, warning⟩

lemma ManifestFile.fromJson_toJson (file : ManifestFile) :
    ManifestFile.fromJson file.toJson = some file := by
  obtain ⟨vaultId, path, format, profile, identity, coverage, hash, fingerprint, resource, byteLength,
    mtimeNanos, chunkCount, outcome, warning⟩ := file
  rw [fromJson, toJson]
  -- which of the two optional fields are written
  cases identity <;> cases resource
  all_goals
    rw [fieldsOf_object _ (ManifestFile.fields.map RecordField.name) rfl (by decide)]
    refine bind_eq_some_of rfl ?_
    refine bind_eq_some_of (requiredField_eq vaultId rfl) ?_
    refine bind_eq_some_of (requiredField_eq path rfl) ?_
    refine bind_eq_some_of (requiredField_eq format rfl) ?_
    refine bind_eq_some_of (requiredField_eq profile rfl) ?_
    refine bind_eq_some_of rfl ?_
    refine bind_eq_some_of (requiredField_eq coverage rfl) ?_
    refine bind_eq_some_of (requiredField_eq hash rfl) ?_
    refine bind_eq_some_of (requiredField_eq fingerprint rfl) ?_
    first
      | refine bind_eq_some_of (defaultedField_missing rfl) ?_
      | refine bind_eq_some_of (defaultedField_eq (some _) rfl) ?_
    refine bind_eq_some_of (requiredField_eq byteLength rfl) ?_
    refine bind_eq_some_of (requiredField_eq mtimeNanos rfl) ?_
    refine bind_eq_some_of (requiredField_eq chunkCount rfl) ?_
    refine bind_eq_some_of (requiredField_eq outcome rfl) ?_
    exact bind_eq_some_of (defaultedField_eq warning rfl) rfl

def ManifestFile.codec : Codec ManifestFile where
  write := toJson
  read := fromJson
  read_write := fromJson_toJson

/-! ## §3 The record -/

/-- `manifest.json`. What it says of the extraction policy is written and never read. -/
structure Manifest where
  (manifestVersion indexFormatVersion : Fin (2 ^ 32))
  chunkingVersion : Fin (2 ^ 64)
  (preparationSchemaVersion formatIdentitySchemaVersion : Fin (2 ^ 32))
  stateRevision : Fin (2 ^ 64)
  lastSync : Option Text
  files : Std.ExtTreeMap Text ManifestFile

namespace Manifest

def fields : List RecordField :=
  [⟨key "manifest_version", false⟩, ⟨key "index_format_version", false⟩,
    ⟨key "chunking_version", false⟩, ⟨key "preparation_schema_version", false⟩,
    ⟨key "format_identity_schema_version", true⟩, ⟨key "state_revision", false⟩,
    ⟨key "last_sync", false⟩, ⟨key "files", false⟩]

/-- The keys of a written record. -/
def writtenKeys : List Text :=
  ["manifest_version", "index_format_version", "chunking_version", "preparation_schema_version",
    "format_identity_schema_version", "extraction_policy_fingerprint", "state_revision",
    "last_sync", "files"].map key

def entries (ids : FormatIdentities) (manifest : Manifest) : List (Text × Json) :=
  [(key "manifest_version", (Codec.bounded _).write manifest.manifestVersion),
    (key "index_format_version", (Codec.bounded _).write manifest.indexFormatVersion),
    (key "chunking_version", (Codec.bounded _).write manifest.chunkingVersion),
    (key "preparation_schema_version", (Codec.bounded _).write manifest.preparationSchemaVersion),
    (key "format_identity_schema_version",
      (Codec.bounded _).write manifest.formatIdentitySchemaVersion),
    (key "extraction_policy_fingerprint", Codec.text.write ids.extractionPolicyFingerprint),
    (key "state_revision", (Codec.bounded _).write manifest.stateRevision),
    (key "last_sync", Codec.optionalText.write manifest.lastSync),
    (key "files", ManifestFile.codec.map.write manifest.files)]

def toJson (ids : FormatIdentities) (manifest : Manifest) : Json := .object (manifest.entries ids)

def fromJson (json : Json) : Option Manifest := do
  let fields ← fieldsOf Manifest.fields json
  let manifestVersion ← requiredField (.bounded _) (key "manifest_version") fields
  let indexFormatVersion ← requiredField (.bounded _) (key "index_format_version") fields
  let chunkingVersion ← requiredField (.bounded _) (key "chunking_version") fields
  let preparationSchemaVersion ← requiredField (.bounded _) (key "preparation_schema_version") fields
  -- a record without the field reaches the version gate, which refuses it
  let formatIdentitySchemaVersion ←
    defaultedField (.bounded _) 0 (key "format_identity_schema_version") fields
  let stateRevision ← requiredField (.bounded _) (key "state_revision") fields
  let lastSync ← defaultedField .optionalText none (key "last_sync") fields
  let files ← requiredField ManifestFile.codec.map (key "files") fields
  return ⟨manifestVersion, indexFormatVersion, chunkingVersion, preparationSchemaVersion,
    formatIdentitySchemaVersion, stateRevision, lastSync, files⟩

lemma fromJson_toJson (ids : FormatIdentities) (manifest : Manifest) :
    fromJson (manifest.toJson ids) = some manifest := by
  obtain ⟨version, index, chunking, preparation, schema, revision, sync, files⟩ := manifest
  rw [fromJson, toJson, fieldsOf_object _ writtenKeys rfl (by decide)]
  refine bind_eq_some_of rfl ?_
  refine bind_eq_some_of (requiredField_eq version rfl) ?_
  refine bind_eq_some_of (requiredField_eq index rfl) ?_
  refine bind_eq_some_of (requiredField_eq chunking rfl) ?_
  refine bind_eq_some_of (requiredField_eq preparation rfl) ?_
  refine bind_eq_some_of (defaultedField_eq schema rfl) ?_
  refine bind_eq_some_of (requiredField_eq revision rfl) ?_
  refine bind_eq_some_of (defaultedField_eq sync rfl) ?_
  exact bind_eq_some_of (requiredField_eq files rfl) rfl

def rows (manifest : Manifest) : List ManifestFile := manifest.files.values

def documentCount (manifest : Manifest) : ℕ :=
  manifest.rows.countP fun file => file.outcome = .indexed

/-- Source counts by format and coverage. -/
def sourceFormatCounts (manifest : Manifest) : List ((SourceFormat × ExtractionCoverage) × ℕ) :=
  SourceFormat.all.flatMap fun format => ExtractionCoverage.all.map fun coverage =>
    ((format, coverage),
      manifest.rows.countP fun file => file.format = format ∧ file.coverage = coverage)

/-- Core versions and the aggregate invariants, and nothing about formats. -/
def validateReadable (manifest : Manifest) : Except Error Unit :=
  if manifest.manifestVersion.val ≠ Kwiry.manifestVersion ∨
      manifest.indexFormatVersion.val ≠ Kwiry.indexFormatVersion ∨
      manifest.chunkingVersion.val ≠ Kwiry.chunkingVersion ∨
      manifest.preparationSchemaVersion.val ≠ sourcePreparationSchemaVersion ∨
      manifest.formatIdentitySchemaVersion.val ≠ Kwiry.formatIdentitySchemaVersion then
    .error (Kwiry.Manifest.unsupportedVersions manifest.manifestVersion.val
      manifest.indexFormatVersion.val manifest.chunkingVersion.val
      manifest.preparationSchemaVersion.val manifest.formatIdentitySchemaVersion.val)
  else if manifest.rows.any fun file =>
      file.coverage.isIndexed ≠ (file.outcome = .indexed : Bool) then
    .error (.state ("manifest coverage does not match persisted file outcomes" ++ rebuildRemedy))
  else if Kwiry.Manifest.indexedDocuments manifest.sourceFormatCounts ≠ manifest.documentCount then
    .error (.state ("manifest per-format coverage counts do not match its document total" ++
      rebuildRemedy))
  else
    .ok ()

/-- The publication gate: readable, and every row under the running identity. -/
def validate (ids : FormatIdentities) (manifest : Manifest) : Except Error Unit := do
  manifest.validateReadable
  match manifest.rows.find? fun file => !file.identityMatches ids with
  | some file =>
    if file.extractionProfile ≠ ids.extractionProfileFor file.format then
      throw (.state ("manifest entry " ++ String.ofList file.path ++ " records the " ++
        file.extractionProfile.asStr ++ " extraction profile for " ++ file.format.asStr ++
        " but this build compiles " ++ (ids.extractionProfileFor file.format).asStr ++
        rebuildRemedy))
    else
      throw (.state ("manifest entry " ++ String.ofList file.path ++ " records " ++
        file.format.asStr ++ " format identity " ++
        (file.formatIdentity.map String.ofList).getD "<absent>" ++ " but this build compiles " ++
        String.ofList (ids.formatIdentityFingerprint file.format) ++ rebuildRemedy))
  | none => return ()

/-- What `write_json_atomic` puts into the file. -/
def save (J : SerdeJson) (ids : FormatIdentities) (manifest : Manifest) : Except Error Bytes := do
  manifest.validate ids
  return J.toVecPretty (manifest.toJson ids) ++ [10]

end Manifest

end OnDisk

/-- A manifest as it was read: core-compatible, and possibly with rows this build cannot reuse. -/
structure ManifestOnDisk where
  manifest : OnDisk.Manifest
  readable : manifest.validateReadable = .ok ()

def readJson (J : SerdeJson) (path : String) (source : Except Error Bytes) :
    Except Error OnDisk.Manifest := do
  let bytes ← source
  match (J.fromSlice bytes).bind OnDisk.Manifest.fromJson with
  | some manifest => return manifest
  | none => throw (.state ("invalid JSON at " ++ path ++ ": " ++ J.error bytes))

/-- Reads the record and refuses it whole on a core mismatch. -/
def OnDisk.Manifest.load (J : SerdeJson) (path : String) (source : Except Error Bytes) :
    Except Error ManifestOnDisk := do
  let manifest ← (readJson J path source).mapError fun error =>
    match error with
    | .state message => .state (message ++ rebuildRemedy)
    | other => other
  match h : manifest.validateReadable with
  | .ok () => return ⟨manifest, h⟩
  | .error error => throw error

/-! ## §4 Adoption -/

/-- What is said of a row that was evicted. -/
structure EvictedSource where
  format : SourceFormat
  path : Text
  resource : Option OnDisk.ResourceKey
  recordedIdentity : Option Text

def EvictedSource.of (file : OnDisk.ManifestFile) : EvictedSource :=
  ⟨file.format, file.path, file.resource, file.formatIdentity⟩

/-- What adoption removed. -/
structure EvictionReport where
  byFormat : Std.ExtTreeMap SourceFormat ℕ
  evicted : Std.ExtTreeMap Text EvictedSource

namespace EvictionReport

protected def default : EvictionReport := ⟨∅, ∅⟩

def total (report : EvictionReport) : ℕ := report.evicted.size

def record (report : EvictionReport) (key : Text) (file : OnDisk.ManifestFile) :
    EvictionReport where
  byFormat := report.byFormat.insert file.format ((report.byFormat[file.format]?).getD 0 + 1)
  evicted := report.evicted.insert key (.of file)

end EvictionReport

namespace ManifestOnDisk

variable (ids : FormatIdentities) (disk : ManifestOnDisk)

/-- The rows this build cannot reuse, in key order. -/
def stale : List (Text × OnDisk.ManifestFile) :=
  disk.manifest.files.toList.filter fun entry => !entry.2.identityMatches ids

/-- Removes every row this build cannot reuse, and reports each. -/
def adopt : OnDisk.Manifest × EvictionReport :=
  ({ disk.manifest with
      files := disk.manifest.files.filter fun _ file => file.identityMatches ids },
    (disk.stale ids).foldl (fun report entry => report.record entry.1 entry.2) .default)

end ManifestOnDisk

/-- The row that is recorded for a row of this build: its digests as their digits, its numbers as
the words they are. -/
def ManifestFile.recorded (file : ManifestFile) : OnDisk.ManifestFile where
  vaultId := file.vaultId.chars
  path := file.path.chars
  format := file.format
  extractionProfile := file.extractionProfile
  formatIdentity := file.formatIdentity.map hexText
  coverage := file.coverage
  contentHash := hexText file.contentHash
  registrationFingerprint := hexText file.registrationFingerprint
  resource := file.resource.map fun resource =>
    ⟨resource.tenantId.chars, resource.vaultId.chars, resource.roomId.chars⟩
  byteLength := .ofNat _ file.byteLength
  mtimeNanos := .ofNat _ file.mtimeNanos
  chunkCount := .ofNat _ file.chunkCount
  outcome := file.outcome
  warning := file.warning.map String.toList

namespace OnDisk.Manifest

variable {ids : FormatIdentities} {manifest : OnDisk.Manifest}

/-- The versions are those of this build. -/
def CoreCurrent (manifest : OnDisk.Manifest) : Prop :=
  manifest.manifestVersion.val = Kwiry.manifestVersion ∧
    manifest.indexFormatVersion.val = Kwiry.indexFormatVersion ∧
    manifest.chunkingVersion.val = Kwiry.chunkingVersion ∧
    manifest.preparationSchemaVersion.val = sourcePreparationSchemaVersion ∧
    manifest.formatIdentitySchemaVersion.val = Kwiry.formatIdentitySchemaVersion

/-- Where coverages and outcomes agree row by row, so do their totals. -/
theorem indexedDocuments_sourceFormatCounts
    (h : ∀ row ∈ manifest.rows, row.coverage.isIndexed = decide (row.outcome = .indexed)) :
    Kwiry.Manifest.indexedDocuments manifest.sourceFormatCounts = manifest.documentCount := by
  let cells : List (SourceFormat × ExtractionCoverage) :=
    SourceFormat.all.flatMap fun format => ExtractionCoverage.all.map fun coverage =>
      (format, coverage)
  have hcounts : manifest.sourceFormatCounts = cells.map fun cell =>
      (cell, manifest.rows.countP fun row => (row.format, row.coverage) = cell) := by
    simp only [cells, sourceFormatCounts, map_flatMap, map_map, Function.comp_def, Prod.mk.injEq]
  have hnodup : (cells.filter fun cell => cell.2.isIndexed).Nodup := by decide
  have hmem : ∀ format coverage, (format, coverage) ∈ cells.filter (fun cell => cell.2.isIndexed) ↔
      coverage.isIndexed = true := by
    intro format coverage
    cases format <;> cases coverage <;> decide
  calc Kwiry.Manifest.indexedDocuments manifest.sourceFormatCounts
      = ((cells.filter fun cell => cell.2.isIndexed).map fun cell =>
          manifest.rows.countP fun row => (row.format, row.coverage) = cell).sum := by
        rw [Kwiry.Manifest.indexedDocuments, hcounts, filter_map, map_map]
        rfl
    _ = manifest.documentCount := by
        refine (sum_countP_eq hnodup _).trans (countP_congr ?_)
        intro row hrow
        simp only [decide_eq_true_eq, hmem, h row hrow]

lemma validateReadable_ok_iff : manifest.validateReadable = .ok () ↔
    manifest.CoreCurrent ∧
      ∀ row ∈ manifest.rows, row.coverage.isIndexed = decide (row.outcome = .indexed) := by
  rw [validateReadable]
  by_cases hcore : manifest.CoreCurrent
  · rw [if_neg (by simpa [CoreCurrent, not_or] using hcore)]
    by_cases hrows : ∀ row ∈ manifest.rows, row.coverage.isIndexed = decide (row.outcome = .indexed)
    · rw [if_neg (by simpa using hrows), if_neg (not_not.mpr
        (indexedDocuments_sourceFormatCounts hrows))]
      exact ⟨fun _ => ⟨hcore, hrows⟩, fun _ => rfl⟩
    · rw [if_pos (by simpa using hrows)]
      exact ⟨(by cases ·), fun h => absurd h.2 hrows⟩
  · rw [if_pos (by simpa [CoreCurrent, imp_iff_not_or] using hcore)]
    exact ⟨(by cases ·), fun h => absurd h.1 hcore⟩

lemma validate_ok_iff : manifest.validate ids = .ok () ↔
    manifest.validateReadable = .ok () ∧
      ∀ row ∈ manifest.rows, row.identityMatches ids = true := by
  rw [validate]
  cases hreadable : manifest.validateReadable with
  | error e =>
    constructor
    · intro h
      cases h
    · intro h
      cases h.1
  | ok _ =>
    cases hfind : manifest.rows.find? fun file => !file.identityMatches ids with
    | none =>
      have hall := find?_eq_none.mp hfind
      constructor
      · intro _
        exact ⟨rfl, by simpa using hall⟩
      · intro _
        rfl
    | some file =>
      have hmem := mem_of_find?_eq_some hfind
      have hstale : file.identityMatches ids = false := by simpa using find?_some hfind
      constructor
      · intro h
        by_cases hprofile : file.extractionProfile ≠ ids.extractionProfileFor file.format
        · simp [bind, Except.bind, hprofile, throw, throwThe, MonadExceptOf.throw] at h
        · simp [bind, Except.bind, hprofile, throw, throwThe, MonadExceptOf.throw] at h
      · intro h
        rw [h.2 file hmem] at hstale
        cases hstale

end OnDisk.Manifest

/-! ## §6 The report -/

variable {row : OnDisk.ManifestFile}

section Report

variable {ids : FormatIdentities} {disk : ManifestOnDisk}

lemma evicted_foldl_record (entries : List (Text × OnDisk.ManifestFile))
    (report : EvictionReport) :
    (entries.foldl (fun report entry => report.record entry.1 entry.2) report).evicted =
      (entries.map fun entry => (entry.1, EvictedSource.of entry.2)).foldl
        (fun evicted entry => evicted.insert entry.1 entry.2) report.evicted := by
  induction entries generalizing report with
  | nil => rfl
  | cons entry rest ih => exact ih _

lemma byFormat_foldl_record (entries : List (Text × OnDisk.ManifestFile))
    (report : EvictionReport) (format : SourceFormat) :
    ((entries.foldl (fun report entry => report.record entry.1 entry.2)
      report).byFormat[format]?).getD 0 =
      (report.byFormat[format]?).getD 0 + entries.countP fun entry => entry.2.format = format := by
  induction entries generalizing report with
  | nil => rfl
  | cons entry rest ih =>
    rw [foldl_cons, ih, EvictionReport.record, Std.ExtTreeMap.getElem?_insert]
    by_cases hformat : entry.2.format = format
    · subst hformat
      simp
      omega
    · simp [hformat]

lemma mem_stale {key : Text} : (key, row) ∈ disk.stale ids ↔
    disk.manifest.files[key]? = some row ∧ row.identityMatches ids = false := by
  simp [ManifestOnDisk.stale, Std.ExtTreeMap.mem_toList_iff_getElem?_eq_some]

lemma distinct_stale : ((disk.stale ids).map fun entry =>
    (entry.1, EvictedSource.of entry.2)).Pairwise fun a b => ¬ compare a.1 b.1 = .eq := by
  rw [pairwise_map]
  exact Std.ExtTreeMap.distinct_keys_toList.sublist filter_sublist

lemma evicted_adopt : (disk.adopt ids).2.evicted =
    .ofList ((disk.stale ids).map fun entry => (entry.1, EvictedSource.of entry.2)) := by
  rw [ManifestOnDisk.adopt, evicted_foldl_record, Std.ExtTreeMap.ofList_eq_foldl]
  rfl

/-- The report has every stale row, and no other. -/
theorem getElem?_evicted_adopt {key : Text} {source : EvictedSource} :
    (disk.adopt ids).2.evicted[key]? = some source ↔
      ∃ row, disk.manifest.files[key]? = some row ∧ row.identityMatches ids = false ∧
        source = .of row := by
  rw [evicted_adopt]
  constructor
  · intro h
    by_cases hstale : ∃ row, (key, row) ∈ disk.stale ids
    · obtain ⟨row, hrow⟩ := hstale
      rw [Std.ExtTreeMap.getElem?_ofList_of_mem Std.ReflCmp.compare_self distinct_stale
        (mem_map_of_mem hrow)] at h
      obtain ⟨hget, hmatches⟩ := mem_stale.mp hrow
      exact ⟨row, hget, hmatches, (Option.some.inj h).symm⟩
    · rw [Std.ExtTreeMap.getElem?_ofList_of_contains_eq_false] at h
      · cases h
      · simpa using hstale
  · intro h
    obtain ⟨row, hget, hmatches, hsource⟩ := h
    rw [hsource]
    exact Std.ExtTreeMap.getElem?_ofList_of_mem Std.ReflCmp.compare_self distinct_stale
      (mem_map_of_mem (mem_stale.mpr ⟨hget, hmatches⟩))

lemma total_adopt : (disk.adopt ids).2.total = (disk.stale ids).length := by
  rw [EvictionReport.total, evicted_adopt, Std.ExtTreeMap.size_ofList distinct_stale, length_map]

lemma sum_byFormat_adopt : (disk.adopt ids).2.byFormat.values.sum = (disk.adopt ids).2.total := by
  have hcount : ∀ format, ((disk.adopt ids).2.byFormat[format]?).getD 0 =
      (disk.stale ids).countP fun entry => entry.2.format = format := by
    intro format
    rw [ManifestOnDisk.adopt, byFormat_foldl_record]
    simp [EvictionReport.default]
  have hall : ∀ entry ∈ disk.stale ids, decide (entry.2.format ∈ SourceFormat.all) = true :=
    fun entry _ => by simp [SourceFormat.mem_all]
  rw [sum_values (by decide : SourceFormat.all.Nodup) fun format _ => SourceFormat.mem_all format,
    total_adopt]
  simp only [hcount]
  exact (sum_countP_eq (by decide : SourceFormat.all.Nodup)
    fun entry : Text × OnDisk.ManifestFile => entry.2.format).trans (countP_eq_length.mpr hall)

end Report

/-! ## §7 Adoption -/

section

variable (ids : FormatIdentities) (disk : ManifestOnDisk)

lemma getElem?_files_adopt {key : Text} :
    (disk.adopt ids).1.files[key]? = some row ↔
      disk.manifest.files[key]? = some row ∧ row.identityMatches ids = true := by
  rw [ManifestOnDisk.adopt, Std.ExtTreeMap.getElem?_filter']
  simp [Option.filter_eq_some_iff]

lemma mem_rows_adopt : row ∈ (disk.adopt ids).1.rows ↔
    row ∈ disk.manifest.rows ∧ row.identityMatches ids = true := by
  simp only [OnDisk.Manifest.rows, mem_values, getElem?_files_adopt]
  constructor
  · intro h
    obtain ⟨key, hget, hmatches⟩ := h
    exact ⟨⟨key, hget⟩, hmatches⟩
  · intro h
    obtain ⟨⟨key, hget⟩, hmatches⟩ := h
    exact ⟨key, hget, hmatches⟩

lemma validate_adopt : (disk.adopt ids).1.validate ids = .ok () := by
  rw [OnDisk.Manifest.validate_ok_iff, OnDisk.Manifest.validateReadable_ok_iff]
  obtain ⟨hcore, hrows⟩ := OnDisk.Manifest.validateReadable_ok_iff.mp disk.readable
  refine ⟨⟨hcore, fun row hrow => ?_⟩, fun row hrow => ?_⟩
  · exact hrows row ((mem_rows_adopt ids disk).mp hrow).1
  · exact ((mem_rows_adopt ids disk).mp hrow).2

lemma adopt_of_validate (h : disk.manifest.validate ids = .ok ()) :
    disk.adopt ids = (disk.manifest, .default) := by
  have hall := (OnDisk.Manifest.validate_ok_iff.mp h).2
  have hmatches : ∀ (key : Text) (row : OnDisk.ManifestFile),
      disk.manifest.files[key]? = some row → row.identityMatches ids = true :=
    fun key row hget => hall row (mem_values.mpr ⟨key, hget⟩)
  have hstale : disk.stale ids = [] := by
    apply eq_nil_iff_forall_not_mem.mpr
    intro entry hentry
    obtain ⟨hget, hfalse⟩ := mem_stale.mp hentry
    rw [hmatches _ _ hget] at hfalse
    cases hfalse
  have hfiles : disk.manifest.files.filter (fun _ file => file.identityMatches ids) =
      disk.manifest.files := by
    apply Std.ExtTreeMap.ext_getElem?
    intro key
    rw [Std.ExtTreeMap.getElem?_filter']
    cases hget : disk.manifest.files[key]? with
    | none => rfl
    | some row => simp [hmatches key row hget]
  rw [ManifestOnDisk.adopt, hstale, hfiles]
  rfl

/-- A record that may be published is saved, and read back as it is. -/
theorem load_save {J : SerdeJson} {manifest : OnDisk.Manifest} (path : String)
    (h : manifest.validate ids = .ok ()) (hJ : J.Reads (manifest.toJson ids)) :
    ∃ bytes again, manifest.save J ids = .ok bytes ∧
      OnDisk.Manifest.load J path (.ok bytes) = .ok again ∧ again.manifest = manifest := by
  have hreadable := (OnDisk.Manifest.validate_ok_iff.mp h).1
  have hread : readJson J path (.ok (J.toVecPretty (manifest.toJson ids) ++ [10])) =
      .ok manifest := by
    have hparse : (J.fromSlice (J.toVecPretty (manifest.toJson ids) ++ [10])).bind
        OnDisk.Manifest.fromJson = some manifest := by
      rw [hJ]
      exact OnDisk.Manifest.fromJson_toJson ids manifest
    simp only [readJson, bind, Except.bind, hparse]
    rfl
  refine ⟨J.toVecPretty (manifest.toJson ids) ++ [10], ⟨manifest, hreadable⟩, ?_, ?_, rfl⟩
  · rw [OnDisk.Manifest.save, h]
    rfl
  · rw [OnDisk.Manifest.load, hread]
    simp only [Except.mapError, bind, Except.bind]
    split
    next => rfl
    next error herror =>
      rw [hreadable] at herror
      cases herror

/-- A record and what adoption makes of it: a row is kept or evicted, by its identity, and what is
kept may be published. -/
structure Adopted (kept : OnDisk.Manifest) (report : EvictionReport) : Prop where
  kept_iff : ∀ (key : Text) (row : OnDisk.ManifestFile), kept.files[key]? = some row ↔
    disk.manifest.files[key]? = some row ∧ row.identityMatches ids = true
  evicted_iff : ∀ (key : Text) (source : EvictedSource), report.evicted[key]? = some source ↔
    ∃ row, disk.manifest.files[key]? = some row ∧ row.identityMatches ids = false ∧
      source = .of row
  apart : ∀ key ∈ disk.manifest.files, (key ∈ kept.files ↔ key ∉ report.evicted)
  publishable : kept.validate ids = .ok ()
  counted : report.byFormat.values.sum = report.total

lemma adopted_adopt : Adopted ids disk (disk.adopt ids).1 (disk.adopt ids).2 where
  kept_iff _ _ := getElem?_files_adopt ids disk
  evicted_iff _ _ := getElem?_evicted_adopt
  apart := by
    intro key hkey
    obtain ⟨row, hget⟩ := Option.isSome_iff_exists.mp
      (Std.ExtTreeMap.mem_iff_isSome_getElem?.mp hkey)
    simp only [Std.ExtTreeMap.mem_iff_isSome_getElem?, Option.isSome_iff_exists,
      getElem?_files_adopt, getElem?_evicted_adopt, hget]
    cases hmatches : row.identityMatches ids <;> simp [hmatches]
  publishable := validate_adopt ids disk
  counted := sum_byFormat_adopt

/-- Adoption splits the rows of a record by their identity; what it keeps is saved and read back,
and adopting it again evicts nothing. -/
theorem adopt_partitions : Adopted ids disk (disk.adopt ids).1 (disk.adopt ids).2 ∧
    ∀ (J : SerdeJson) (path : String), J.Reads ((disk.adopt ids).1.toJson ids) →
      ∃ bytes again, (disk.adopt ids).1.save J ids = .ok bytes ∧
        OnDisk.Manifest.load J path (.ok bytes) = .ok again ∧
        again.adopt ids = ((disk.adopt ids).1, .default) := by
  refine ⟨adopted_adopt ids disk, fun J path hJ => ?_⟩
  obtain ⟨bytes, again, hsave, hload, hagain⟩ :=
    load_save ids path (validate_adopt ids disk) hJ
  refine ⟨bytes, again, hsave, hload, ?_⟩
  rw [adopt_of_validate ids again (by rw [hagain]; exact validate_adopt ids disk), hagain]

end

/-! ### Two notes, one from an older build -/

/-- A portable build whose identities are all `v1`. -/
def firstIdentities : FormatIdentities := ⟨fun _ => .portable, fun _ => ['v', '1'], ['p']⟩

/-- The row of an empty note under the given identity. -/
def noteRow (path : Text) (identity : Option Text) : OnDisk.ManifestFile :=
  ⟨['v'], path, .markdown, .portable, identity, .indexedComplete, ['h'], ['r'], none, 0, 0, 0,
    .indexed, none⟩

/-- One note of this build, and one from before rows had an identity. -/
def twoNotes : ManifestOnDisk where
  manifest := ⟨5, 12, 2, 10, 1, 0, none,
    .ofList [(['a'], noteRow ['a', '.', 'm', 'd'] (some ['v', '1'])),
      (['b'], noteRow ['b', '.', 'm', 'd'] none)]⟩
  readable := by decide +kernel

/-- What is saved of them. -/
def savedNote : Bytes := utf8 ("\x7b
  \"manifest_version\": 5,
  \"index_format_version\": 12,
  \"chunking_version\": 2,
  \"preparation_schema_version\": 10,
  \"format_identity_schema_version\": 1,
  \"extraction_policy_fingerprint\": \"p\",
  \"state_revision\": 0,
  \"last_sync\": null,
  \"files\": \x7b
    \"a\": \x7b
      \"vault_id\": \"v\",
      \"path\": \"a.md\",
      \"format\": \"markdown\",
      \"extraction_profile\": \"portable\",
      \"format_identity\": \"v1\",
      \"coverage\": \"indexed-complete\",
      \"content_hash\": \"h\",
      \"registration_fingerprint\": \"r\",
      \"byte_length\": 0,
      \"mtime_nanos\": 0,
      \"chunk_count\": 0,
      \"outcome\": \"indexed\",
      \"warning\": null
    \x7d
  \x7d
\x7d".toList)

/-- A writer and a reader that know one text. -/
def SerdeJson.knowing (text : Bytes) (value : Json) : SerdeJson where
  toVecPretty _ := text
  fromSlice bytes := if bytes = text ++ [10] then some value else none
  error _ := "expected value"

lemma SerdeJson.knowing_reads (text : Bytes) (value : Json) :
    (knowing text value).Reads value := by
  simp [Reads, knowing]

def noteJson : SerdeJson :=
  .knowing savedNote ((twoNotes.adopt firstIdentities).1.toJson firstIdentities)

theorem adopt_partitions_twoNotes :
    Adopted firstIdentities twoNotes (twoNotes.adopt firstIdentities).1
        (twoNotes.adopt firstIdentities).2 ∧
      ∃ bytes again, (twoNotes.adopt firstIdentities).1.save noteJson firstIdentities = .ok bytes ∧
        OnDisk.Manifest.load noteJson "manifest.json" (.ok bytes) = .ok again ∧
        again.adopt firstIdentities = ((twoNotes.adopt firstIdentities).1, .default) :=
  ⟨(adopt_partitions firstIdentities twoNotes).1,
    (adopt_partitions firstIdentities twoNotes).2 noteJson "manifest.json"
      (SerdeJson.knowing_reads savedNote _)⟩

end Kwiry
