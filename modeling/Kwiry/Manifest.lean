import Kwiry.Ingest

/-!
# The Manifest

`manifest.rs`: one row per source, keyed by its source key, with the versions every row was
produced under.
-/

namespace Kwiry

open Foundations Option

/-- Errors of the index managers, by class and message. -/
inductive Error where
  | state (message : String)
  | index (message : String)
  | io (message : String)
  | noVaults
  | invalidVaultPath (path : Str)
  deriving DecidableEq

/-- What every refusal of a stored record ends with. -/
def rebuildRemedy : String := "; run `kwiry index` to rebuild the disposable index"

/-- A digest as its lower-case hexadecimal digits. -/
def hexDigest (digest : Digest) : String :=
  String.ofList (digest.flatMap fun byte =>
    [hexDigit (byte.toNat / 16), hexDigit (byte.toNat % 16)])

def manifestVersion : ℕ := 5
def indexFormatVersion : ℕ := 12

/-! ## §1 Rows -/

inductive ManifestFileOutcome where
  | indexed | skipped
  deriving DecidableEq

structure ManifestFile where
  (vaultId path : Str)
  format : SourceFormat
  extractionProfile : ExtractionProfile
  formatIdentity : Option Digest
  coverage : ExtractionCoverage
  (contentHash registrationFingerprint : Digest)
  resource : Option ResourceKey
  (byteLength mtimeNanos chunkCount : ℕ)
  outcome : ManifestFileOutcome
  warning : Option String
  deriving DecidableEq

variable (B : Build)

/-- Whether a row was produced under this build's identity for its format. An absent identity is a
refusal. -/
def ManifestFile.identityMatches (file : ManifestFile) : Bool :=
  file.extractionProfile = B.extractionProfileFor file.format &&
    file.formatIdentity = some (B.formatIdentityFingerprint file.format)

def ManifestFile.retained (previous : ManifestFile) : ManifestFile := previous

/-- The row an outcome is recorded as. -/
def ManifestFile.fromOutcome (outcome : FileIngestOutcome) (registrationFingerprint : Digest)
    (resource : Option ResourceKey) : Option (SourceKey × ManifestFile) := do
  let contentHash ← outcome.contentHash
  let kind ←
    match outcome.kind with
    | .indexed => some ManifestFileOutcome.indexed
    | .skipped => some .skipped
    | .transientError => none
  return (sourceKey B.hash outcome.vaultId outcome.path,
    { vaultId := outcome.vaultId
      path := outcome.path
      format := outcome.format
      extractionProfile := outcome.extractionProfile
      -- stamped from the running build, never copied from a previous record
      formatIdentity := some (B.formatIdentityFingerprint outcome.format)
      coverage := outcome.coverage
      contentHash := contentHash
      registrationFingerprint := registrationFingerprint
      resource := resource
      byteLength := outcome.byteLength
      mtimeNanos := outcome.mtimeNanos
      chunkCount := outcome.chunks.length
      outcome := kind
      warning := outcome.warning.map IngestWarning.message })

/-! ## §2 The record -/

structure Manifest where
  (manifestVersion indexFormatVersion chunkingVersion preparationSchemaVersion : ℕ)
  (formatIdentitySchemaVersion stateRevision : ℕ)
  lastSync : Option String
  files : Std.ExtTreeMap SourceKey ManifestFile
  deriving DecidableEq

namespace Manifest

protected def default : Manifest where
  manifestVersion := Kwiry.manifestVersion
  indexFormatVersion := Kwiry.indexFormatVersion
  chunkingVersion := Kwiry.chunkingVersion
  preparationSchemaVersion := sourcePreparationSchemaVersion
  formatIdentitySchemaVersion := Kwiry.formatIdentitySchemaVersion
  stateRevision := 0
  lastSync := none
  files := ∅

def rows (manifest : Manifest) : List ManifestFile :=
  manifest.files.values

def documentCount (manifest : Manifest) : ℕ :=
  manifest.rows.countP fun file => file.outcome = .indexed

def chunkCount (manifest : Manifest) : ℕ :=
  (manifest.rows.map ManifestFile.chunkCount).sum

/-- Source counts by format and coverage, in registry order. -/
def sourceFormatCounts (manifest : Manifest) : List ((SourceFormat × ExtractionCoverage) × ℕ) :=
  SourceFormat.all.flatMap fun format =>
    [.indexedComplete, .indexedPartial, .skippedNoExtractableText, .unreadable,
      .quarantined].map fun coverage =>
      ((format, coverage),
        manifest.rows.countP fun file => file.format = format && file.coverage = coverage)

def indexedDocuments (counts : List ((SourceFormat × ExtractionCoverage) × ℕ)) : ℕ :=
  ((counts.filter fun entry => entry.1.2.isIndexed).map Prod.snd).sum

/-- The error over what versions a manifest has, beside those of this build. -/
def unsupportedVersions (manifest index chunking preparation schema : ℕ) : Error :=
  .state ("unsupported manifest versions: found manifest=" ++ toString manifest ++ ", index=" ++
    toString index ++ ", chunking=" ++ toString chunking ++ ", preparation=" ++
    toString preparation ++ ", format_identity_schema=" ++ toString schema ++
    "; expected manifest=" ++ toString Kwiry.manifestVersion ++ ", index=" ++
    toString Kwiry.indexFormatVersion ++ ", chunking=" ++ toString Kwiry.chunkingVersion ++
    ", preparation=" ++ toString sourcePreparationSchemaVersion ++ ", format_identity_schema=" ++
    toString Kwiry.formatIdentitySchemaVersion ++ rebuildRemedy)

section

variable (manifest : Manifest)

/-- Core versions and the aggregate invariants. -/
def validateReadable : Except Error Unit :=
  if manifest.manifestVersion ≠ Kwiry.manifestVersion ∨
      manifest.indexFormatVersion ≠ Kwiry.indexFormatVersion ∨
      manifest.chunkingVersion ≠ Kwiry.chunkingVersion ∨
      manifest.preparationSchemaVersion ≠ sourcePreparationSchemaVersion ∨
      manifest.formatIdentitySchemaVersion ≠ Kwiry.formatIdentitySchemaVersion then
    .error (unsupportedVersions manifest.manifestVersion manifest.indexFormatVersion
      manifest.chunkingVersion manifest.preparationSchemaVersion
      manifest.formatIdentitySchemaVersion)
  else if manifest.rows.any fun file =>
      file.coverage.isIndexed ≠ (file.outcome = .indexed : Bool) then
    .error (.state ("manifest coverage does not match persisted file outcomes" ++ rebuildRemedy))
  else if indexedDocuments manifest.sourceFormatCounts ≠ manifest.documentCount then
    .error (.state ("manifest per-format coverage counts do not match its document total" ++
      rebuildRemedy))
  else
    .ok ()

/-- The publication gate: readable, and every row under this build's identity. -/
def validate : Except Error Unit := do
  manifest.validateReadable
  match manifest.rows.find? fun file => !file.identityMatches B with
  | some file =>
    if file.extractionProfile ≠ B.extractionProfileFor file.format then
      throw (.state ("manifest entry " ++ file.path.toString ++ " records the " ++
        file.extractionProfile.asStr ++ " extraction profile for " ++ file.format.asStr ++
        " but this build compiles " ++ (B.extractionProfileFor file.format).asStr ++
        rebuildRemedy))
    else
      throw (.state ("manifest entry " ++ file.path.toString ++ " records " ++
        file.format.asStr ++ " format identity " ++
        (file.formatIdentity.map hexDigest).getD "<absent>" ++ " but this build compiles " ++
        hexDigest (B.formatIdentityFingerprint file.format) ++ rebuildRemedy))
  | none => return ()

/-- One more revision, at the formatted time. -/
def markSynced (syncTime : String) : Manifest :=
  { manifest with
    stateRevision := min (manifest.stateRevision + 1) (2 ^ 64 - 1)
    lastSync := some syncTime }

/-- Inserts the row of an outcome, if it is recorded. -/
def insertOutcome (outcome : FileIngestOutcome) (registrationFingerprint : Digest)
    (resource : Option ResourceKey) : Manifest :=
  match ManifestFile.fromOutcome B outcome registrationFingerprint resource with
  | none => manifest
  | some (key, file) => { manifest with files := manifest.files.insert key file }

/-- The keys of the rows with a property, in key order. -/
def keysWhere (p : ManifestFile → Bool) : List SourceKey :=
  manifest.files.keys.filter fun key => manifest.files[key]?.any p

end

lemma mem_keysWhere {manifest : Manifest} {p : ManifestFile → Bool} {key : SourceKey} :
    key ∈ manifest.keysWhere p ↔ ∃ row, manifest.files[key]? = some row ∧ p row = true := by
  simp only [keysWhere, List.mem_filter, Std.ExtTreeMap.mem_keys, any_eq_true]
  constructor
  · rintro ⟨-, hrow⟩
    exact hrow
  · rintro ⟨row, hget, hp⟩
    exact ⟨Std.ExtTreeMap.mem_iff_isSome_getElem?.mpr (by simp [hget]), row, hget, hp⟩

lemma nodup_keysWhere (manifest : Manifest) (p : ManifestFile → Bool) :
    (manifest.keysWhere p).Nodup :=
  Std.ExtTreeMap.nodup_keys.filter _

/-- Every row stands under the key of its own vault and path. -/
def Keyed (manifest : Manifest) : Prop :=
  ∀ key row, manifest.files[key]? = some row → key = sourceKey B.hash row.vaultId row.path

end Manifest

/-! ## §3 Rows of ingested files -/

/-- A row that an ingest of the given vault, file and read was recorded as. -/
def RecordsIngest (vault : VaultRegistration) (file : DiscoveredFile) (read : SnapshotRead)
    (resource : Option ResourceKey) (row : ManifestFile) : Prop :=
  ManifestFile.fromOutcome B (ingestFile B vault file read)
    (registrationFingerprint B.hash vault) resource =
      some (sourceKey B.hash vault.id file.relativePath, row)

/-- What a recorded row says of its vault, path, bytes and chunks. -/
structure RowSpec (vault : VaultRegistration) (file : DiscoveredFile) (read : SnapshotRead)
    (resource : Option ResourceKey) (row : ManifestFile) : Prop where
  vaultId : row.vaultId = vault.id
  path : row.path = file.relativePath
  identity : row.identityMatches B = true
  fingerprint : row.registrationFingerprint = registrationFingerprint B.hash vault
  resource : row.resource = resource
  mtimeNanos : row.mtimeNanos = file.mtimeNanos
  chunkCount : row.chunkCount = (ingestFile B vault file read).chunks.length
  outcome : row.chunkCount ≠ 0 → row.outcome = .indexed
  contentHash : ∃ bytes, read = .bytes bytes ∧ row.contentHash = B.hash.digest bytes ∧
    validateDescriptor (sourceDescriptor vault file bytes.length) = .ok ()

variable {B}

variable {file : DiscoveredFile} {read : SnapshotRead} {resource : Option ResourceKey}
  {vault : VaultRegistration}

variable {row : ManifestFile}

lemma RecordsIngest.spec (h : RecordsIngest B vault file read resource row) :
    RowSpec B vault file read resource row := by
  have hspec := ingestFile_spec B vault file read
  unfold RecordsIngest ManifestFile.fromOutcome at h
  cases hhash : (ingestFile B vault file read).contentHash with
  | none => simp [hhash] at h
  | some hash =>
    have hbytes := hspec.contentHash hash hhash
    cases hkind : (ingestFile B vault file read).kind with
    | transientError => simp [hhash, hkind] at h
    | indexed =>
      simp only [hhash, hkind, bind_eq_bind, bind_some, pure_def, some.injEq, Prod.mk.injEq] at h
      obtain ⟨-, rfl⟩ := h
      exact ⟨hspec.vaultId, hspec.path, by simp [ManifestFile.identityMatches, hspec.format,
        hspec.extractionProfile], rfl, rfl, hspec.mtimeNanos, rfl, fun _ => rfl, hbytes⟩
    | skipped =>
      simp only [hhash, hkind, bind_eq_bind, bind_some, pure_def, some.injEq, Prod.mk.injEq] at h
      obtain ⟨-, rfl⟩ := h
      refine ⟨hspec.vaultId, hspec.path, by simp [ManifestFile.identityMatches, hspec.format,
        hspec.extractionProfile], rfl, rfl, hspec.mtimeNanos, rfl, fun hcount => ?_, hbytes⟩
      -- chunks would make the outcome indexed
      have hchunks : (ingestFile B vault file read).chunks ≠ [] := by
        intro hnil
        exact hcount (by simp [hnil])
      rw [(hspec.chunks_indexed hchunks).1] at hkind
      cases hkind

lemma RecordsIngest.format (h : RecordsIngest B vault file read resource row) :
    row.format = file.format := by
  rw [← (ingestFile_spec B vault file read).format]
  unfold RecordsIngest ManifestFile.fromOutcome at h
  cases hhash : (ingestFile B vault file read).contentHash with
  | none => simp [hhash] at h
  | some hash =>
    cases hkind : (ingestFile B vault file read).kind <;> simp [hhash, hkind] at h
    all_goals
      obtain ⟨-, rfl⟩ := h
      rfl

/-- The key an outcome is recorded under is that of its vault and file. -/
theorem fromOutcome_ingestFile {entry : SourceKey × ManifestFile}
    (h : ManifestFile.fromOutcome B (ingestFile B vault file read)
      (registrationFingerprint B.hash vault) resource = some entry) :
    entry.1 = sourceKey B.hash vault.id file.relativePath ∧
      RecordsIngest B vault file read resource entry.2 := by
  have hspec := ingestFile_spec B vault file read
  have hkey : entry.1 = sourceKey B.hash vault.id file.relativePath := by
    unfold ManifestFile.fromOutcome at h
    cases hhash : (ingestFile B vault file read).contentHash with
    | none => simp [hhash] at h
    | some hash =>
      cases hkind : (ingestFile B vault file read).kind <;> simp [hhash, hkind] at h
      all_goals
        rw [← h, hspec.vaultId, hspec.path]
  exact ⟨hkey, by rw [RecordsIngest, h, ← hkey]⟩

/-- An outcome with chunks is recorded. -/
theorem fromOutcome_isSome_of_chunks (resource : Option ResourceKey)
    (h : (ingestFile B vault file read).chunks ≠ []) :
    (ManifestFile.fromOutcome B (ingestFile B vault file read)
      (registrationFingerprint B.hash vault) resource).isSome = true := by
  obtain ⟨hkind, hhash⟩ := (ingestFile_spec B vault file read).chunks_indexed h
  obtain ⟨hash, hhash⟩ := isSome_iff_exists.mp hhash
  simp [ManifestFile.fromOutcome, hkind, hhash]

lemma room_ne_empty {descriptor : SourceDescriptor}
    (h : validateDescriptor descriptor = .ok ()) : descriptor.room ≠ some Str.empty := by
  intro hroom
  have hblank : isBlank Str.empty.chars = true := rfl
  unfold validateDescriptor at h
  split at h
  · cases h
  · simp [hroom, hblank] at h

/-- One fingerprint on two valid sources is one id and one room: the absent room and the empty one
share a fingerprint, but no source is prepared under an empty room. -/
theorem room_eq_of_fingerprint {v w : VaultRegistration} {f g : DiscoveredFile} {m n : ℕ}
    (hfp : registrationFingerprint B.hash v = registrationFingerprint B.hash w)
    (hv : validateDescriptor (sourceDescriptor v f m) = .ok ())
    (hw : validateDescriptor (sourceDescriptor w g n) = .ok ()) :
    v.id = w.id ∧ v.room = w.room := by
  obtain ⟨hid, -, hroom⟩ := registrationFingerprint_inj B.hash hfp
  have hv' : v.room ≠ some Str.empty := room_ne_empty hv
  have hw' : w.room ≠ some Str.empty := room_ne_empty hw
  refine ⟨hid, ?_⟩
  cases hvroom : v.room with
  | none =>
    cases hwroom : w.room with
    | none => rfl
    | some r =>
      rw [hvroom, hwroom] at hroom
      exact absurd (by rw [hwroom, show r = Str.empty from hroom.symm]) hw'
  | some r =>
    cases hwroom : w.room with
    | none =>
      rw [hvroom, hwroom] at hroom
      exact absurd (by rw [hvroom, show r = Str.empty from hroom]) hv'
    | some s =>
      rw [hvroom, hwroom] at hroom
      exact congrArg some hroom

/-- Two rows of one key with one fingerprint and one content hash describe one text under one
registration. -/
theorem RecordsIngest.congr {v w : VaultRegistration} {f g : DiscoveredFile} {a b : Bytes}
    {r s : Option ResourceKey} {next : ManifestFile} (hrow : RecordsIngest B v f (.bytes a) r row)
    (hnext : RecordsIngest B w g (.bytes b) s next)
    (hkey : sourceKey B.hash v.id f.relativePath = sourceKey B.hash w.id g.relativePath)
    (hfp : row.registrationFingerprint = next.registrationFingerprint)
    (hhash : row.contentHash = next.contentHash) :
    v.id = w.id ∧ v.room = w.room ∧ f.relativePath = g.relativePath ∧ a = b := by
  obtain ⟨_, hread, hhashRow, hvalid⟩ := hrow.spec.contentHash
  obtain ⟨_, hread', hhashNext, hvalid'⟩ := hnext.spec.contentHash
  cases hread
  cases hread'
  rw [hrow.spec.fingerprint, hnext.spec.fingerprint] at hfp
  obtain ⟨hid, hroom⟩ := room_eq_of_fingerprint hfp hvalid hvalid'
  exact ⟨hid, hroom, (sourceKey_inj B.hash hkey).2,
    B.hash.injective (by rw [← hhashRow, hhash, hhashNext])⟩

/-- A row counts the documents of its text, whenever they were stamped. -/
theorem RecordsIngest.chunkCount_eq {stamp : DiscoveredFile} {bytes : Bytes}
    (h : RecordsIngest B vault file (.bytes bytes) resource row)
    (hstamp : stamp.relativePath = file.relativePath) :
    row.chunkCount = ((ingestFile B vault stamp (.bytes bytes)).documents B).length := by
  rw [h.spec.chunkCount, ingestFile_documents_restamp rfl rfl hstamp, List.length_map,
    FileIngestOutcome.documents, List.length_map]

end Kwiry
