import Kwiry.Foundations.Bytes
import Kwiry.Foundations.Folds

/-!
# Cache Records and Their Pointers

What the plugin's cache store keeps: images of complete generations and of initial-build
checkpoints, each named by a small JSON file, its pointer. A pointer is read strictly: every key
once, no other key, every value in its bounds.
-/

namespace Kwiry.Cache

open Foundations

/-! ## §1 JSON -/

/-- A JSON value. An integer that is not negative stands apart from the other numbers. -/
inductive Json where
  | null
  | bool (value : Bool)
  | natural (value : ℕ)
  | number (literal : Text)
  | string (value : Text)
  | array (items : List Json)
  | object (fields : List (Text × Json))

/-- `JSON` and the UTF-8 coders of the runtime: `decode` is the fatal decoder, `parse` is
`JSON.parse`, `stringify` encodes the text of `JSON.stringify`. -/
structure JsonText where
  decode : Bytes → Option Text
  parse : Text → Option Json
  stringify : Json → Bytes

/-- A value reads back as it was written. -/
def JsonText.Reads (J : JsonText) (value : Json) : Prop :=
  ∃ raw, J.decode (J.stringify value) = some raw ∧ J.parse raw = some value

/-- The name of a field. -/
def key (name : String) : Text := name.toList

def maxSafeInteger : ℕ := 2 ^ 53 - 1

/-- A nonnegative safe integer, `undefined` and other values left out. -/
def safeIntegerOf : Option Json → Option ℕ
  | some (.natural n) => if n ≤ maxSafeInteger then some n else none
  | _ => none

/-- The value of a field, where it is a string. -/
def stringOf : Option Json → Option Text
  | some (.string t) => some t
  | _ => none

def isNonNegativeSafeInteger (value : Option Json) : Bool :=
  (safeIntegerOf value).isSome

/-- Lengths of strings count UTF-16 units. -/
def utf16Len (t : Text) : ℕ :=
  (t.map fun c => if c.toNat < 0x10000 then 1 else 2).sum

def isBoundedString (value : Option Json) (maximum : ℕ) : Bool :=
  match stringOf value with
  | some t => 0 < utf16Len t ∧ utf16Len t ≤ maximum
  | none => false

/-- The keys of an object, as `Object.keys` has them, are exactly the expected ones. -/
def hasKeys (keys : List Text) (fields : List (Text × Json)) : Bool :=
  fields.length = keys.length ∧ fields.all fun field => keys.contains field.1

/-! ## §2 Identifiers -/

def isIdStart (c : Char) : Bool :=
  ('A' ≤ c ∧ c ≤ 'Z') ∨ ('a' ≤ c ∧ c ≤ 'z') ∨ ('0' ≤ c ∧ c ≤ '9')

def isIdChar (c : Char) : Bool :=
  isIdStart c ∨ c = '.' ∨ c = '_' ∨ c = '-'

/-- `^[A-Za-z0-9][A-Za-z0-9._-]{0,127}$` -/
def isGenerationId : Text → Bool
  | [] => false
  | first :: rest => isIdStart first ∧ rest.length ≤ 127 ∧ rest.all isIdChar

/-- `^[0-9a-f]{64}$` -/
def isSha256Hex (t : Text) : Bool :=
  t.length = 64 ∧ t.all fun c => ('0' ≤ c ∧ c ≤ '9') ∨ ('a' ≤ c ∧ c ≤ 'f')

def sha256Of (value : Option Json) : Option Text :=
  (stringOf value).filter isSha256Hex

def generationIdOf (value : Option Json) : Option Text :=
  (stringOf value).filter isGenerationId

def cacheIdentityKeys : List Text :=
  ["protocol_version", "cache_schema_version", "chunking_version", "sqlite_version",
    "sqlite_wasm_sha256", "rust_wasm_sha256", "plugin_id", "plugin_version", "cache_identity",
    "source_policy_hash"].map key

def isCacheIdentityEnvelope : Json → Bool
  | .object fields =>
    hasKeys cacheIdentityKeys fields ∧
      isNonNegativeSafeInteger (fields.lookup (key "protocol_version")) ∧
      isNonNegativeSafeInteger (fields.lookup (key "cache_schema_version")) ∧
      isNonNegativeSafeInteger (fields.lookup (key "chunking_version")) ∧
      isBoundedString (fields.lookup (key "sqlite_version")) 64 ∧
      (sha256Of (fields.lookup (key "sqlite_wasm_sha256"))).isSome ∧
      (sha256Of (fields.lookup (key "rust_wasm_sha256"))).isSome ∧
      isBoundedString (fields.lookup (key "plugin_id")) 128 ∧
      isBoundedString (fields.lookup (key "plugin_version")) 64 ∧
      (sha256Of (fields.lookup (key "cache_identity"))).isSome ∧
      (sha256Of (fields.lookup (key "source_policy_hash"))).isSome
  | _ => false

/-- `identity.cache_identity` -/
def cacheIdentityOf : Json → Option Text
  | .object fields => stringOf (fields.lookup (key "cache_identity"))
  | _ => none

def envelopeOf (value : Option Json) : Option Json :=
  value.filter isCacheIdentityEnvelope

/-! ## §3 Checkpoint cursors -/

def maxReconciliationSources : ℕ := 200000

def splitPath (path : Text) : List Text :=
  path.splitOnP (· == '/')

def isNormalizedVaultFilePath (path : Text) : Bool :=
  path ≠ [] ∧ utf16Len path ≤ 4096 ∧ path.head? ≠ some '/' ∧ '\\' ∉ path ∧
    Char.ofNat 0 ∉ path ∧
    (splitPath path).all fun component => component ≠ [] ∧ component ≠ ['.'] ∧ component ≠ ['.', '.']

def cursorKeys : List Text :=
  ["snapshot_source_count", "acknowledged_add_batches", "acknowledged_prefix_sources",
    "last_acknowledged_path"].map key

/-- The last path of a cursor: none before the first acknowledged source. -/
def cursorPathOk (batches sources : ℕ) (path : Option Json) : Bool :=
  if sources = 0 then
    match path with
    | some .null => true
    | _ => false
  else 0 < batches ∧ ((stringOf path).map isNormalizedVaultFilePath).getD false

def isInitialBuildCheckpointCursor : Json → Bool
  | .object fields =>
    hasKeys cursorKeys fields &&
      match safeIntegerOf (fields.lookup (key "snapshot_source_count")),
        safeIntegerOf (fields.lookup (key "acknowledged_add_batches")),
        safeIntegerOf (fields.lookup (key "acknowledged_prefix_sources")) with
      | some count, some batches, some sources =>
        count ≤ maxReconciliationSources ∧ batches ≤ count ∧ sources ≤ count ∧
          cursorPathOk batches sources (fields.lookup (key "last_acknowledged_path"))
      | _, _, _ => false
  | _ => false

/-! ## §4 File names -/

def cacheImageExtension : Text := ".kwc".toList

def initialBuildCheckpointImageExtension : Text := ".kwp".toList

def imageFileName (generationId : Text) : Text :=
  generationId ++ cacheImageExtension

def imageRelativePath (generationId : Text) : Text :=
  "generations/".toList ++ imageFileName generationId

def initialBuildCheckpointImageFileName (generationId sha256 : Text) : Text :=
  generationId ++ ['-'] ++ sha256 ++ initialBuildCheckpointImageExtension

def initialBuildCheckpointImageRelativePath (generationId sha256 : Text) : Text :=
  "images/".toList ++ initialBuildCheckpointImageFileName generationId sha256

/-! ## §5 Records -/

inductive CacheStoreErrorCode where
  | invalidGenerationId
  | invalidIdentity
  | invalidBlob
  | writeFailed
  | unsafePath
  | locked
  | disposed
  deriving DecidableEq

structure CacheStoreError where
  code : CacheStoreErrorCode
  message : Text
  deriving DecidableEq

def storeError (code : CacheStoreErrorCode) (message : String) : CacheStoreError :=
  ⟨code, message.toList⟩

structure CacheRecord where
  generationId : Text
  byteLength : ℕ
  sha256 : Text
  identity : Json

structure CacheWrite extends CacheRecord where
  bytes : Bytes

/-- The literal fields of a checkpoint record are those of its kind. -/
structure CheckpointRecord extends CacheRecord where
  cursor : Json

structure CheckpointWrite extends CheckpointRecord where
  bytes : Bytes

/-- What a store is opened with. -/
structure CacheDeps where
  vaultCacheIdentity : Text
  maxBlobBytes : ℕ
  json : JsonText
  windows : Bool
  vaultCacheIdentity_ok : isSha256Hex vaultCacheIdentity = true
  maxBlobBytes_le : maxBlobBytes ≤ maxSafeInteger

/-- An image is neither empty nor too large, and its record tells its length. -/
def imageInvalid (deps : CacheDeps) (record : CacheRecord) (bytes : Bytes) : Prop :=
  bytes.length = 0 ∨ deps.maxBlobBytes < bytes.length ∨ record.byteLength ≠ bytes.length ∨
    isSha256Hex record.sha256 = false

instance (deps : CacheDeps) (record : CacheRecord) (bytes : Bytes) :
    Decidable (imageInvalid deps record bytes) :=
  inferInstanceAs (Decidable (_ ∨ _ ∨ _ ∨ _))

def identityInvalid (deps : CacheDeps) (identity : Json) : Prop :=
  isCacheIdentityEnvelope identity = false ∨
    cacheIdentityOf identity ≠ some deps.vaultCacheIdentity

instance (deps : CacheDeps) (identity : Json) : Decidable (identityInvalid deps identity) :=
  inferInstanceAs (Decidable (_ ∨ _))

/-- The checks that both kinds of records share, under the messages of each. -/
def validateRecord (deps : CacheDeps) (record : CacheRecord) (bytes : Bytes)
    (image identity : String) : Except CacheStoreError Unit := do
  rejectIf (isGenerationId record.generationId = false)
    (storeError .invalidGenerationId "Generation identifier is invalid.")
  rejectIf (imageInvalid deps record bytes) (storeError .invalidBlob image)
  rejectIf (identityInvalid deps record.identity) (storeError .invalidIdentity identity)

def validateWrite (deps : CacheDeps) (write : CacheWrite) : Except CacheStoreError Unit :=
  validateRecord deps write.toCacheRecord write.bytes "Cache image is invalid."
    "Cache identity envelope is invalid."

def validateInitialBuildCheckpointWrite (deps : CacheDeps) (write : CheckpointWrite) :
    Except CacheStoreError Unit := do
  validateRecord deps write.toCacheRecord write.bytes "Initial-build checkpoint image is invalid."
    "Checkpoint identity envelope is invalid."
  rejectIf (isInitialBuildCheckpointCursor write.cursor = false)
    (storeError .invalidBlob "Initial-build checkpoint cursor is invalid.")

/-! ## §6 Pointers -/

def cachePointerVersion : ℕ := 1

/-- The fields that the pointers of both kinds have in common. -/
structure PointerBody where
  vaultIdentity : Text
  record : CacheRecord
  writtenAtMs : ℕ

structure CachePointer extends PointerBody where
  previousGenerationId : Option Text

def pointerKeys : List Text :=
  ["pointerVersion", "vaultIdentity", "generationId", "previousGenerationId", "file", "byteLength",
    "sha256", "identity", "writtenAtMs"].map key

def CachePointer.fields (pointer : CachePointer) : List (Text × Json) :=
  [ (key "pointerVersion", .natural cachePointerVersion),
    (key "vaultIdentity", .string pointer.vaultIdentity),
    (key "generationId", .string pointer.record.generationId),
    (key "previousGenerationId", match pointer.previousGenerationId with
      | none => .null
      | some previous => .string previous),
    (key "file", .string (imageRelativePath pointer.record.generationId)),
    (key "byteLength", .natural pointer.record.byteLength),
    (key "sha256", .string pointer.record.sha256),
    (key "identity", pointer.record.identity),
    (key "writtenAtMs", .natural pointer.writtenAtMs)]

def CachePointer.toJson (pointer : CachePointer) : Json := .object pointer.fields

def isNatural (value : Option Json) (n : ℕ) : Bool :=
  match value with
  | some (.natural m) => m = n
  | _ => false

/-- `null` or the identifier of the generation before. -/
def previousOf : Option Json → Option (Option Text)
  | some .null => some none
  | value => (generationIdOf value).map some

/-- The checks of the fields that the pointers of both kinds have in common. -/
def pointerBodyOf (deps : CacheDeps) (fields : List (Text × Json)) : Option PointerBody := do
  let vaultIdentity ← sha256Of (fields.lookup (key "vaultIdentity"))
  let generationId ← generationIdOf (fields.lookup (key "generationId"))
  let byteLength ← safeIntegerOf (fields.lookup (key "byteLength"))
  guard (1 ≤ byteLength ∧ byteLength ≤ deps.maxBlobBytes)
  let sha256 ← sha256Of (fields.lookup (key "sha256"))
  let identity ← envelopeOf (fields.lookup (key "identity"))
  let writtenAtMs ← safeIntegerOf (fields.lookup (key "writtenAtMs"))
  some ⟨vaultIdentity, ⟨generationId, byteLength, sha256, identity⟩, writtenAtMs⟩

def pointerOf (deps : CacheDeps) (fields : List (Text × Json)) : Option CachePointer := do
  guard (hasKeys pointerKeys fields)
  guard (isNatural (fields.lookup (key "pointerVersion")) cachePointerVersion)
  let body ← pointerBodyOf deps fields
  let previousGenerationId ← previousOf (fields.lookup (key "previousGenerationId"))
  -- the name is compared with the derived one, never cleaned up
  guard (stringOf (fields.lookup (key "file")) = some (imageRelativePath body.record.generationId))
  some { body with previousGenerationId }

def parsePointer (deps : CacheDeps) (raw : Text) : Option CachePointer :=
  match deps.json.parse raw with
  | some (.object fields) => pointerOf deps fields
  | _ => none

def checkpointPointerVersion : ℕ := 1
def checkpointRecordVersion : ℕ := 1
def checkpointImageVersion : ℕ := 1
def checkpointOrderingVersion : ℕ := 1
def checkpointRecordKind : Text := "initial_build_checkpoint".toList

structure CheckpointPointer extends PointerBody where
  cursor : Json

def CheckpointPointer.checkpoint (pointer : CheckpointPointer) : CheckpointRecord :=
  { pointer.record with cursor := pointer.cursor }

def checkpointPointerKeys : List Text :=
  ["pointerVersion", "recordKind", "recordVersion", "imageVersion", "orderingVersion",
    "vaultIdentity", "generationId", "file", "byteLength", "sha256", "identity", "cursor",
    "writtenAtMs"].map key

def CheckpointPointer.fields (pointer : CheckpointPointer) : List (Text × Json) :=
  [ (key "pointerVersion", .natural checkpointPointerVersion),
    (key "recordKind", .string checkpointRecordKind),
    (key "recordVersion", .natural checkpointRecordVersion),
    (key "imageVersion", .natural checkpointImageVersion),
    (key "orderingVersion", .natural checkpointOrderingVersion),
    (key "vaultIdentity", .string pointer.vaultIdentity),
    (key "generationId", .string pointer.record.generationId),
    (key "file", .string (initialBuildCheckpointImageRelativePath
      pointer.record.generationId pointer.record.sha256)),
    (key "byteLength", .natural pointer.record.byteLength),
    (key "sha256", .string pointer.record.sha256),
    (key "identity", pointer.record.identity),
    (key "cursor", pointer.cursor),
    (key "writtenAtMs", .natural pointer.writtenAtMs)]

def CheckpointPointer.toJson (pointer : CheckpointPointer) : Json := .object pointer.fields

inductive CheckpointPointerParse where
  | valid (pointer : CheckpointPointer)
  | corrupt
  | incompatible

/-- The kind and the versions of this format. -/
def isCheckpointKind (fields : List (Text × Json)) : Bool :=
  stringOf (fields.lookup (key "recordKind")) = some checkpointRecordKind ∧
    isNatural (fields.lookup (key "pointerVersion")) checkpointPointerVersion ∧
    isNatural (fields.lookup (key "recordVersion")) checkpointRecordVersion ∧
    isNatural (fields.lookup (key "imageVersion")) checkpointImageVersion ∧
    isNatural (fields.lookup (key "orderingVersion")) checkpointOrderingVersion

def checkpointPointerOf (deps : CacheDeps) (fields : List (Text × Json)) :
    Option CheckpointPointer := do
  guard (hasKeys checkpointPointerKeys fields)
  let body ← pointerBodyOf deps fields
  let cursor ← (fields.lookup (key "cursor")).filter isInitialBuildCheckpointCursor
  guard (stringOf (fields.lookup (key "file")) = some
    (initialBuildCheckpointImageRelativePath body.record.generationId body.record.sha256))
  some { body with cursor }

def parseInitialBuildCheckpointPointer (deps : CacheDeps) (raw : Text) : CheckpointPointerParse :=
  match deps.json.parse raw with
  | some (.object fields) =>
    -- the pointer of a complete generation is known, not generic corruption
    if hasKeys pointerKeys fields then .incompatible
    else if isCheckpointKind fields = false then .incompatible
    else
      match checkpointPointerOf deps fields with
      | some pointer => .valid pointer
      | none => .corrupt
  | _ => .corrupt

/-- The pointer names another vault, whatever else is wrong with it. -/
def initialBuildCheckpointPointerNamesForeignVault (deps : CacheDeps) (raw : Text) : Bool :=
  match deps.json.parse raw with
  | some (.object fields) =>
    match sha256Of (fields.lookup (key "vaultIdentity")) with
    | some vault =>
      if vault ≠ deps.vaultCacheIdentity then true else foreignEnvelope fields
    | none => foreignEnvelope fields
  | _ => false
where
  foreignEnvelope (fields : List (Text × Json)) : Bool :=
    match envelopeOf (fields.lookup (key "identity")) with
    | some identity => cacheIdentityOf identity ≠ some deps.vaultCacheIdentity
    | none => false

/-! ## §7 Pointers read back -/

/-- The pointer of a record that may be stored. -/
structure PointerBody.Stores (body : PointerBody) (deps : CacheDeps) (bytes : Bytes) : Prop where
  vault : body.vaultIdentity = deps.vaultCacheIdentity
  generation : isGenerationId body.record.generationId = true
  image : ¬ imageInvalid deps body.record bytes
  identity : ¬ identityInvalid deps body.record.identity
  written : body.writtenAtMs ≤ maxSafeInteger

lemma safeIntegerOf_natural {n : ℕ} (h : n ≤ maxSafeInteger) :
    safeIntegerOf (some (.natural n)) = some n :=
  if_pos h

variable {raw t : Text}

lemma sha256Of_string (h : isSha256Hex t = true) : sha256Of (some (.string t)) = some t :=
  Option.filter_some_pos h

lemma generationIdOf_string (h : isGenerationId t = true) :
    generationIdOf (some (.string t)) = some t :=
  Option.filter_some_pos h

variable {deps : CacheDeps} {bytes : Bytes}

lemma pointerBodyOf_eq {body : PointerBody} (h : body.Stores deps bytes)
    {fields : List (Text × Json)}
    (hvault : fields.lookup (key "vaultIdentity") = some (.string body.vaultIdentity))
    (hgeneration : fields.lookup (key "generationId") = some (.string body.record.generationId))
    (hlength : fields.lookup (key "byteLength") = some (.natural body.record.byteLength))
    (hsha : fields.lookup (key "sha256") = some (.string body.record.sha256))
    (hidentity : fields.lookup (key "identity") = some body.record.identity)
    (hwritten : fields.lookup (key "writtenAtMs") = some (.natural body.writtenAtMs)) :
    pointerBodyOf deps fields = some body := by
  have himage := h.image
  simp only [imageInvalid, not_or, Bool.not_eq_false, not_lt, ne_eq, not_not] at himage
  obtain ⟨hne, hmax, hbytes, hhex⟩ := himage
  have henvelope := h.identity
  simp only [identityInvalid, not_or, Bool.not_eq_false, ne_eq, not_not] at henvelope
  have hvaultHex : isSha256Hex body.vaultIdentity = true := by
    rw [h.vault]
    exact deps.vaultCacheIdentity_ok
  have hmaxLength : body.record.byteLength ≤ deps.maxBlobBytes := by omega
  have hsafe : body.record.byteLength ≤ maxSafeInteger := hmaxLength.trans deps.maxBlobBytes_le
  have hbounds : 1 ≤ body.record.byteLength ∧ body.record.byteLength ≤ deps.maxBlobBytes := by
    omega
  rw [pointerBodyOf, hvault, hgeneration, hlength, hsha, hidentity, hwritten,
    sha256Of_string hvaultHex, generationIdOf_string h.generation, safeIntegerOf_natural hsafe,
    sha256Of_string hhex, safeIntegerOf_natural h.written, envelopeOf,
    Option.filter_some_pos henvelope.1]
  simp [guard, hbounds]

/-- What a pointer that was read names is an identifier. -/
theorem generationId_of_pointerBodyOf {fields : List (Text × Json)} {body : PointerBody}
    (h : pointerBodyOf deps fields = some body) :
    isGenerationId body.record.generationId = true := by
  simp only [pointerBodyOf, Option.bind_eq_bind, Option.bind_eq_some_iff] at h
  obtain ⟨_, _, generationId, hgeneration, _, _, _, _, _, _, _, _, _, _, hbody⟩ := h
  cases hbody
  exact (Option.mem_filter_iff.mp hgeneration).2

lemma generationId_of_parsePointer {pointer : CachePointer}
    (h : parsePointer deps raw = some pointer) :
    isGenerationId pointer.record.generationId = true := by
  rw [parsePointer] at h
  split at h
  · simp only [pointerOf, Option.bind_eq_bind, Option.bind_eq_some_iff] at h
    obtain ⟨_, _, _, _, body, hbody, _, _, _, _, heq⟩ := h
    cases heq
    exact generationId_of_pointerBodyOf hbody
  · cases h

variable {pointer : CheckpointPointer}

/-- The digest in a checkpoint pointer that was read is one. -/
theorem sha256_of_parseCheckpoint
    (h : parseInitialBuildCheckpointPointer deps raw = .valid pointer) :
    isSha256Hex pointer.record.sha256 = true := by
  rw [parseInitialBuildCheckpointPointer] at h
  split at h
  · split at h
    · cases h
    · split at h
      · cases h
      · split at h
        next hpointer =>
          cases h
          simp only [checkpointPointerOf, Option.bind_eq_bind, Option.bind_eq_some_iff] at hpointer
          obtain ⟨_, _, body, hbody, _, _, _, _, heq⟩ := hpointer
          cases heq
          simp only [pointerBodyOf, Option.bind_eq_bind, Option.bind_eq_some_iff] at hbody
          obtain ⟨_, _, _, _, _, _, _, _, sha256, hsha, _, _, _, _, heq⟩ := hbody
          cases heq
          exact (Option.mem_filter_iff.mp hsha).2
        next => cases h
  · cases h

lemma checkpointFileName_inj {id id' sha sha' : Text} (hsha : isSha256Hex sha = true)
    (hsha' : isSha256Hex sha' = true) (h : initialBuildCheckpointImageFileName id sha =
      initialBuildCheckpointImageFileName id' sha') : id = id' ∧ sha = sha' := by
  have hlength : ∀ {t : Text}, isSha256Hex t = true → t.length = 64 := by
    intro t ht
    simp only [isSha256Hex, decide_eq_true_eq] at ht
    exact ht.1
  -- identifiers may contain dashes, but the digests are of one length
  obtain ⟨hid, rfl⟩ := List.append_inj' (List.append_cancel_right h)
    ((hlength hsha).trans (hlength hsha').symm)
  exact ⟨List.append_cancel_right hid, rfl⟩

lemma parsePointer_toJson {pointer : CachePointer} (h : pointer.Stores deps bytes)
    (hprevious : ∀ previous ∈ pointer.previousGenerationId, isGenerationId previous = true)
    (hraw : deps.json.parse raw = some pointer.toJson) : parsePointer deps raw = some pointer := by
  have hbody : pointerBodyOf deps pointer.fields = some pointer.toPointerBody :=
    pointerBodyOf_eq h rfl rfl rfl rfl rfl rfl
  have hkeys : hasKeys pointerKeys pointer.fields = true := rfl
  have hversion : isNatural (pointer.fields.lookup (key "pointerVersion")) cachePointerVersion =
      true := rfl
  have hfile : stringOf (pointer.fields.lookup (key "file")) =
      some (imageRelativePath pointer.record.generationId) := rfl
  have hold : previousOf (pointer.fields.lookup (key "previousGenerationId")) =
      some pointer.previousGenerationId := by
    change previousOf (some _) = _
    cases hcase : pointer.previousGenerationId with
    | none => rfl
    | some previous =>
      have hid := generationIdOf_string (hprevious previous hcase)
      simp [previousOf, hid]
  rw [parsePointer, hraw]
  change pointerOf deps pointer.fields = some pointer
  simp [pointerOf, hkeys, hversion, hbody, hold, hfile, guard]

lemma parseCheckpoint_toJson (h : pointer.Stores deps bytes)
    (hcursor : isInitialBuildCheckpointCursor pointer.cursor = true)
    (hraw : deps.json.parse raw = some pointer.toJson) :
    parseInitialBuildCheckpointPointer deps raw = .valid pointer := by
  have hbody : pointerBodyOf deps pointer.fields = some pointer.toPointerBody :=
    pointerBodyOf_eq h rfl rfl rfl rfl rfl rfl
  have hkeys : hasKeys checkpointPointerKeys pointer.fields = true := rfl
  have hother : hasKeys pointerKeys pointer.fields = false := rfl
  have hkind : isCheckpointKind pointer.fields = true := rfl
  have hread : (pointer.fields.lookup (key "cursor")).filter isInitialBuildCheckpointCursor =
      some pointer.cursor := Option.filter_some_pos hcursor
  have hfile : stringOf (pointer.fields.lookup (key "file")) = some
      (initialBuildCheckpointImageRelativePath pointer.record.generationId
        pointer.record.sha256) := rfl
  have hpointer : checkpointPointerOf deps pointer.fields = some pointer := by
    simp [checkpointPointerOf, hkeys, hbody, hread, hfile, guard]
  rw [parseInitialBuildCheckpointPointer, hraw]
  simp only [CheckpointPointer.toJson, hother, hkind, hpointer]
  rfl

/-- A pointer of this vault is not taken for a foreign one. -/
theorem namesForeignVault_toJson (h : pointer.Stores deps bytes)
    (hraw : deps.json.parse raw = some pointer.toJson) :
    initialBuildCheckpointPointerNamesForeignVault deps raw = false := by
  have henvelope := h.identity
  simp only [identityInvalid, not_or, Bool.not_eq_false, ne_eq, not_not] at henvelope
  have hvaultHex : isSha256Hex pointer.vaultIdentity = true := by
    rw [h.vault]
    exact deps.vaultCacheIdentity_ok
  have hvault : sha256Of (pointer.fields.lookup (key "vaultIdentity")) =
      some pointer.vaultIdentity := sha256Of_string hvaultHex
  have hidentity : envelopeOf (pointer.fields.lookup (key "identity")) =
      some pointer.record.identity := Option.filter_some_pos henvelope.1
  rw [initialBuildCheckpointPointerNamesForeignVault, hraw]
  simp [CheckpointPointer.toJson, hvault, h.vault, hidentity, henvelope.2,
    initialBuildCheckpointPointerNamesForeignVault.foreignEnvelope]

end Kwiry.Cache
