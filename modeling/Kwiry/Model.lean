import Kwiry.Foundations.Folds
import Kwiry.Foundations.Unicode

/-!
# Data Model

The records that pass between discovery, preparation, indexing and reconciliation:
`model.rs`, `extract.rs` and `format.rs`, with the parts of the configuration the index
managers read.

Names that enter a hash preimage are `Str`: a text whose UTF-8 length fits the machine
word its length is written in. Numbers the code never lets overflow are natural numbers.
-/

namespace Kwiry

open Foundations

/-! ## §1 Names -/

/-- A text short enough for its byte length to be a nonnegative machine word. -/
abbrev Str := {t : Text // utf8Len t < 2 ^ 63}

instance lawfulBEqStr : LawfulBEq Str := inferInstance

namespace Str

/-- The characters of a name. -/
abbrev chars (s : Str) : Text := s.val

/-- The UTF-8 bytes of a name. -/
def bytes (s : Str) : Bytes := utf8 s.val

lemma bytes_length_lt (s : Str) : s.bytes.length < 2 ^ 64 := by
  have hbound := s.property
  rw [bytes, length_utf8]
  omega

lemma bytes_inj {s t : Str} : s.bytes = t.bytes ↔ s = t :=
  ⟨fun h => Subtype.ext (utf8_injective h), congrArg bytes⟩

/-- The empty name. -/
def empty : Str := ⟨[], by decide⟩

/-- The name as printed in messages. -/
def toString (s : Str) : String := String.ofList s.val

end Str

/-! ## §2 Formats -/

/-- The closed set of source formats. -/
inductive SourceFormat where
  | markdown | text | base | canvas | docx | pdf | excalidraw | excel | html
  deriving DecidableEq

/-- Per-format preparation policy. -/
structure FormatPolicy where
  (roleTaggedChunkIds suppressNonPrimaryBoosts metadataOnlyCarrier : Bool)

namespace SourceFormat

/-- Every registered format, in registry order. -/
def all : List SourceFormat :=
  [markdown, text, base, canvas, excalidraw, docx, pdf, excel, html]

/-- The format's registered name. -/
def asStr : SourceFormat → String
  | markdown => "markdown"
  | text => "text"
  | base => "base"
  | canvas => "canvas"
  | excalidraw => "excalidraw"
  | excel => "excel"
  | docx => "docx"
  | pdf => "pdf"
  | html => "html"

/-- The extensions registered for a format. -/
def extensions : SourceFormat → List String
  | markdown => ["md", "markdown", "mdx"]
  | text => ["txt"]
  | base => ["base"]
  | canvas => ["canvas"]
  | excalidraw => ["excalidraw"]
  | docx => ["docx"]
  | pdf => ["pdf"]
  | excel => ["xlsx", "xlsm"]
  | html => ["html", "htm"]

/-- The policy registered for a format. -/
def policy : SourceFormat → FormatPolicy
  | excel => ⟨true, true, false⟩
  | html => ⟨true, true, true⟩
  | _ => ⟨false, false, false⟩

/-- The format an extension is registered for, ignoring ASCII case. -/
def fromExtension (ext : Text) : Option SourceFormat :=
  all.find? fun format => format.extensions.any fun candidate =>
    candidate.toList == ext.map Char.toLower

end SourceFormat

/-- The last path component. -/
def fileName (path : Text) : Text :=
  (path.splitOn '/').getLast?.getD path

/-- A name split at its last dot. -/
def rsplitDot (name : Text) : Option (Text × Text) :=
  let reversed := name.reverse
  if '.' ∈ name then
    some (((reversed.dropWhile (· ≠ '.')).drop 1).reverse,
      (reversed.takeWhile (· ≠ '.')).reverse)
  else
    none

/-- The extension of a path: what follows the last dot of its file name, unless that dot leads the
name. -/
def pathExtension (path : Text) : Option Text :=
  match rsplitDot (fileName path) with
  | some (stem, ext) => if stem.isEmpty then none else some ext
  | none => none

/-- The format a path is registered for. -/
def SourceFormat.fromPath (path : Text) : Option SourceFormat :=
  (pathExtension path).bind SourceFormat.fromExtension

/-! ## §3 Extraction results -/

/-- How much of a source was extracted. -/
inductive ExtractionCoverage where
  | indexedComplete | indexedPartial | skippedNoExtractableText | unreadable | quarantined
  deriving DecidableEq

/-- Whether a coverage stands for an indexed source. -/
def ExtractionCoverage.isIndexed : ExtractionCoverage → Bool
  | indexedComplete | indexedPartial => true
  | _ => false

/-- The lexical class of a section. -/
inductive ContentRole where
  | primary | supporting | latent
  deriving DecidableEq

/-- Where in its source a section lies. -/
inductive SourceLocator where
  | baseView (view : Text)
  | pdfPage (page : ℕ)
  | excelCell (sheet cell : Text)

/-- An authored property value. A float is kept by its bits, as the source compares it. -/
inductive PropertyValue where
  | null
  | bool (value : Bool)
  | i64 (value : Int)
  | u64 (value : ℕ)
  | f64 (bits : ℕ)
  | string (value : Text)
  | sequence (values : List PropertyValue)
  | map (entries : List (Text × PropertyValue))

/-- The authored properties of a source, by name. -/
structure PropertyBag where
  entries : List (Text × PropertyValue)

/-- The compact string projection of the authored properties. -/
structure Frontmatter where
  (title description : Option Text)
  tags : List Text
  (status date : Option Text)

/-- The projection of no properties. -/
def Frontmatter.default : Frontmatter := ⟨none, none, [], none, none⟩

/-- One extracted section. -/
structure ExtractedSection where
  headingPath : List Text
  content : Text
  role : ContentRole
  locator : Option SourceLocator

/-- What an extractor returns for one source. -/
structure ExtractedSource where
  properties : PropertyBag
  frontmatter : Frontmatter
  (aliases linksOut : List Text)
  sections : List ExtractedSection
  coverage : ExtractionCoverage
  /-- The notices' messages. -/
  notices : List String

/-- The notices joined into one warning. -/
def ExtractedSource.warning (extracted : ExtractedSource) : Option String :=
  match extracted.notices with
  | [] => none
  | notices => some (String.intercalate "; " notices)

/-! ## §4 Prepared chunks -/

/-- Version of the chunking rules. -/
def chunkingVersion : ℕ := 2

/-- Largest source read, in bytes. -/
def maxFileBytes : ℕ := 10 * 1024 * 1024

/-- Longest chunk, in characters. -/
def maxChunkChars : ℕ := 4000

/-- Characters repeated between the chunks of one section. -/
def chunkOverlapChars : ℕ := 400

/-- A digest, as its bytes. -/
abbrev Digest := Bytes

/-- A source's key in the manifest and the index. -/
abbrev SourceKey := Digest

/-- A chunk of a source. -/
structure Chunk where
  chunkId : Digest
  vaultId : Str
  room : Option Str
  path : Str
  headingPath : List Text
  content : Text
  linksOut : List Text
  mtime : ℕ
  contentHash : Digest
  chunkingVersion : ℕ

/-- The names a source is retrieved by. -/
structure RetrievalMetadata where
  (filename stem : Text)
  aliases : List Text

/-- A chunk with the source-level data its document needs. -/
structure PreparedChunk where
  chunk : Chunk
  headingText : Text
  normalizedHeading : Option Text
  technicalIdentifiers : List Text
  contentRole : ContentRole
  sourceLocator : Option SourceLocator
  sourceFormat : SourceFormat
  extractionCoverage : ExtractionCoverage
  sourceProperties : PropertyBag
  sourceFrontmatter : Frontmatter

/-! ## §5 Registrations and configuration -/

/-- A registered vault. The path is its lossy text, which is what the code hashes. -/
structure VaultRegistration where
  (id path : Str)
  room : Option Str
  deriving DecidableEq

/-- The exact classification a partition is served under. -/
structure ResourceKey where
  (tenantId vaultId roomId : Str)
  deriving DecidableEq

/-- The components of a resource key, in the order the derived ordering compares them. -/
def ResourceKey.components (r : ResourceKey) : List Text :=
  [r.tenantId.chars, r.vaultId.chars, r.roomId.chars]

lemma ResourceKey.components_injective : Function.Injective ResourceKey.components := by
  intro a b h
  obtain ⟨ta, va, ra⟩ := a
  obtain ⟨tb, vb, rb⟩ := b
  simp only [components, List.cons.injEq, and_true] at h
  obtain ⟨ht, hv, hr⟩ := h
  rw [Subtype.ext ht, Subtype.ext hv, Subtype.ext hr]

instance : Ord ResourceKey := ⟨compareOn ResourceKey.components⟩

instance : Std.TransOrd ResourceKey :=
  inferInstanceAs (Std.TransCmp (compareOn ResourceKey.components))

instance : Std.LawfulEqOrd ResourceKey :=
  lawfulEqCmp_compareOn ResourceKey.components ResourceKey.components_injective

/-- What freshness is decided on. -/
inductive IndexFreshnessBasis where
  | strictHash | metadataAudit | producerManifest
  deriving DecidableEq

/-- The configuration, as far as the index managers read it. Loading a configuration refuses
repeated vault ids. -/
structure Config where
  /-- `auth.openclast.tenant_id`, when the profile configures one. -/
  tenantId : Option Str
  basis : IndexFreshnessBasis
  (auditSourcesPerPass auditBytesPerPass racyWindowMillis : ℕ)
  vaults : List VaultRegistration
  vaults_nodup : (vaults.map VaultRegistration.id).Nodup

/-- The resource a vault is classified under. -/
def Config.resourceKey (config : Config) (vault : VaultRegistration) : Option ResourceKey :=
  match config.tenantId, vault.room with
  | some tenant, some room => some ⟨tenant, vault.id, room⟩
  | _, _ => none

section

variable {config : Config} {vault : VaultRegistration} {resource : ResourceKey}
  (h : config.resourceKey vault = some resource)

include h

lemma Config.vaultId_of_resourceKey : resource.vaultId = vault.id := by
  unfold Config.resourceKey at h
  split at h
  · cases h
    rfl
  · cases h

lemma Config.room_of_resourceKey : vault.room = some resource.roomId := by
  unfold Config.resourceKey at h
  split at h
  · rename_i hroom
    cases h
    exact hroom
  · cases h

end

/-- The ids of the registered vaults. -/
def Config.vaultIds (config : Config) : List Str :=
  config.vaults.map VaultRegistration.id

/-- The registration of a vault id. -/
def Config.registration (config : Config) (id : Str) : Option VaultRegistration :=
  config.vaults.find? fun vault => vault.id = id

lemma Config.mem_of_registration {config : Config} {id : Str} {vault : VaultRegistration}
    (h : config.registration id = some vault) : vault ∈ config.vaults ∧ vault.id = id :=
  ⟨List.mem_of_find?_eq_some h, by simpa using List.find?_some h⟩

lemma Config.eq_of_id_eq {config : Config} {v w : VaultRegistration}
    (hv : v ∈ config.vaults) (hw : w ∈ config.vaults) (hid : v.id = w.id) : v = w :=
  List.inj_on_of_nodup_map config.vaults_nodup hv hw hid

lemma Config.registration_of_mem {config : Config} {vault : VaultRegistration}
    (h : vault ∈ config.vaults) : config.registration vault.id = some vault := by
  cases hfound : config.registration vault.id with
  | none =>
    rw [registration, List.find?_eq_none] at hfound
    exact absurd (by simp) (hfound vault h)
  | some other =>
    obtain ⟨hmem, hid⟩ := Config.mem_of_registration hfound
    rw [Config.eq_of_id_eq hmem h hid]

end Kwiry
