import Kwiry.Docx.Xml
import Kwiry.Pdf.Objects

/-!
# The Package of a DOCX File

`docx/opc.rs` and what it uses of `docx/zip.rs` and `docx/wordprocessing.rs`: an archive is opened
through its content types and its root relationships, and its parts are found by following
relationships from the main document on. The parts to follow wait in a queue.

Two histories stand beside the state of the source and are read by no function: which parts were
opened, and whose relationships were processed, with the relationships.
-/

namespace Kwiry.Docx

open Foundations
open Pdf (ExtractionNotice)

def maxCanonicalPartUriBytes : ℕ := 1024
def maxRelationshipTargetBytes : ℕ := 2048
def maxSelectedXmlParts : ℕ := 256
def maxRelationshipsPerPart : ℕ := 4096
def maxRelationshipsTotal : ℕ := 16384
def maxSelectedXmlPartBytes : ℕ := 16 * 1024 * 1024
def maxSelectedXmlTotalBytes : ℕ := 32 * 1024 * 1024
def maxExpansionRatio : ℕ := 200
def expansionRatioAllowanceBytes : ℕ := 1024 * 1024
def maxNotices : ℕ := 32

def contentTypesPart : Text := "/[Content_Types].xml".toList
def rootRelationshipsPart : Text := "/_rels/.rels".toList

def contentTypesNamespaces : List Text :=
  ["http://schemas.openxmlformats.org/package/2006/content-types",
    "http://purl.oclc.org/ooxml/package/content-types"].map String.toList

def relationshipsNamespaces : List Text :=
  ["http://schemas.openxmlformats.org/package/2006/relationships",
    "http://purl.oclc.org/ooxml/package/relationships"].map String.toList

def officeRelTransitional : Text :=
  "http://schemas.openxmlformats.org/officeDocument/2006/relationships/".toList

def officeRelStrict : Text :=
  "http://purl.oclc.org/ooxml/officeDocument/relationships/".toList

def mainContentType : Text :=
  "application/vnd.openxmlformats-officedocument.wordprocessingml.document.main+xml".toList

/-! ## §1 Part names -/

def hexValue (c : Char) : Option ℕ :=
  if '0' ≤ c ∧ c ≤ '9' then some (c.toNat - '0'.toNat)
  else if 'a' ≤ c ∧ c ≤ 'f' then some (c.toNat - 'a'.toNat + 10)
  else if 'A' ≤ c ∧ c ≤ 'F' then some (c.toNat - 'A'.toNat + 10)
  else none

/-- What an escape with these digits stands for in a canonical name. -/
def canonicalizeEscape (high low : Char) : Except DocxError Text :=
  match hexValue high, hexValue low with
  | some h, some l =>
    let decoded := Char.ofNat (16 * h + l)
    if decoded = '/' ∨ decoded = '\\' ∨ decoded = '\x00' then .error .invalidPackage
    else if decoded.isAlphanum ∨ decoded ∈ ['-', '.', '_', '~'] then .ok [decoded]
    else .ok ['%', high.toUpper, low.toUpper]
  | _, _ => .error .invalidPackage

def canonicalizeChars : Text → Except DocxError Text
  | [] => .ok []
  | '%' :: high :: low :: rest => do
    let piece ← canonicalizeEscape high low
    let output ← canonicalizeChars rest
    return piece ++ output
  | c :: rest =>
    if c = '%' then
      .error .invalidPackage
    else do
      let output ← canonicalizeChars rest
      return c :: output

def canonicalizeSegment (segment : Text) : Except DocxError Text :=
  if segment = [] then
    .error .invalidPackage
  else do
    let output ← canonicalizeChars segment
    rejectIf (output = ['.'] ∨ output = ['.', '.']) .invalidPackage
    return output

/-- What no part name and no target may contain. -/
def isReserved (c : Char) : Bool :=
  c = '\\' ∨ c = '\x00' ∨ c = '?' ∨ c = '#'

/-- The name an entry of the archive goes by. -/
def canonicalizeZipName (name : Text) (isDirectory : Bool) : Except DocxError Text := do
  rejectIf (name = [] ∨ name.head? = some '/' ∨ name.any isReserved ∨
      (isDirectory = false ∧ name.getLast? = some '/')) .invalidPackage
  rejectIf (isDirectory ∧ name.getLast? ≠ some '/') .invalidPackage
  let body := if isDirectory then name.dropLast else name
  let segments ← (body.splitOn '/').mapM canonicalizeSegment
  let canonical := '/' :: joinWith ['/'] segments ++ if isDirectory then ['/'] else []
  rejectIf (maxCanonicalPartUriBytes < utf8Len canonical) .packageLimitExceeded
  return canonical

def canonicalizePartUri (uri : Text) : Except DocxError Text := do
  rejectIf (uri.head? ≠ some '/' ∨ uri.getLast? = some '/' ∨ uri.any isReserved)
    .requiredPartInvalid
  let segments ← ((uri.drop 1).splitOn '/').mapM canonicalizeSegment
  let canonical := '/' :: joinWith ['/'] segments
  rejectIf (maxCanonicalPartUriBytes < utf8Len canonical) .packageLimitExceeded
  return canonical

/-- `rsplit_once` -/
def rsplitOnce (sep : Char) (t : Text) : Option (Text × Text) :=
  if sep ∈ t then
    some (((t.reverse.dropWhile (· ≠ sep)).drop 1).reverse, (t.reverse.takeWhile (· ≠ sep)).reverse)
  else
    none

/-- One segment of a target, after the segments it is relative to. -/
def resolveSegment (segments : List Text) (raw : Text) : Except DocxError (List Text) :=
  if raw = [] ∨ raw = ['.'] then
    .error .requiredPartInvalid
  else if raw = ['.', '.'] then
    if segments = [] then .error .requiredPartInvalid else .ok segments.dropLast
  else
    match canonicalizeSegment raw with
    | .ok segment => .ok (segments ++ [segment])
    | .error .packageLimitExceeded => .error .packageLimitExceeded
    | .error _ => .error .requiredPartInvalid

def resolveRelationshipTarget (sourcePart target : Text) : Except DocxError Text := do
  rejectIf (target = [] ∨ maxRelationshipTargetBytes < utf8Len target ∨ target.any isReserved)
    .requiredPartInvalid
  let base :=
    if target.head? = some '/' ∨ sourcePart = ['/'] then []
    else ((rsplitOnce '/' (sourcePart.drop 1)).map fun split => split.1.splitOn '/').getD []
  let segments ← ((target.dropWhile (· = '/')).splitOn '/').foldlM resolveSegment base
  let resolved := '/' :: joinWith ['/'] segments
  rejectIf (maxCanonicalPartUriBytes < utf8Len resolved) .packageLimitExceeded
  return resolved

def relationshipsPartUri (sourcePart : Text) : Except DocxError Text :=
  if sourcePart = ['/'] then
    .ok rootRelationshipsPart
  else
    match rsplitOnce '/' sourcePart with
    | none => .error .requiredPartInvalid
    | some (parent, name) =>
      let relationshipPart := parent ++ "/_rels/".toList ++ name ++ ".rels".toList
      if maxCanonicalPartUriBytes < utf8Len relationshipPart then .error .packageLimitExceeded
      else .ok relationshipPart

/-! ## §2 The archive -/

/-- An entry by its declared sizes and what decompressing it gives. -/
structure ArchiveEntry where
  (compressedSize uncompressedSize : ℕ)
  contents : Except DocxError Bytes

/-- The entries of an archive. Every name was canonicalized when the archive was read. -/
structure ArchiveInventory where
  entries : List (Text × ArchiveEntry)
  canonical : ∀ entry ∈ entries, ∃ name isDirectory,
    canonicalizeZipName name isDirectory = .ok entry.1

namespace ArchiveInventory

variable (inventory : ArchiveInventory)

def contains (partUri : Text) : Bool := (inventory.entries.lookup partUri).isSome

/-- The bytes of a part, and the bytes selected so far. -/
def openSelectedXml (selectedUncompressed : ℕ) (partUri : Text) : Except DocxError (Bytes × ℕ) :=
  match inventory.entries.lookup partUri with
  | none => .error .requiredPartInvalid
  | some entry =>
    if maxSelectedXmlPartBytes < entry.uncompressedSize then
      .error .packageLimitExceeded
    else if 2 ^ 64 ≤ entry.compressedSize * maxExpansionRatio + expansionRatioAllowanceBytes then
      .error .packageLimitExceeded
    else if entry.compressedSize * maxExpansionRatio + expansionRatioAllowanceBytes <
        entry.uncompressedSize then
      .error .packageLimitExceeded
    else if maxSelectedXmlTotalBytes < selectedUncompressed + entry.uncompressedSize then
      .error .packageLimitExceeded
    else do
      let output ← entry.contents
      return (output, selectedUncompressed + entry.uncompressedSize)

end ArchiveInventory

/-! ## §3 Elements -/

def optionalAttribute (element : XmlElement) (name : String) : Option Text :=
  element.attributes.lookup name.toList

def requiredAttribute (element : XmlElement) (name : String) : Except DocxError Text :=
  match optionalAttribute element name with
  | some value => .ok value
  | none => .error .requiredPartInvalid

def namespaceMatches (nameSpace : Option Text) (expected : List Text) : Bool :=
  nameSpace.any (· ∈ expected)

def requireElement (element : XmlElement) (namespaces : List Text) (localName : String) :
    Except DocxError Unit :=
  if element.localName = localName.toList ∧ namespaceMatches element.nameSpace namespaces then
    .ok ()
  else
    .error .requiredPartInvalid

/-- The types of the parts, by extension and by name. -/
structure ContentTypes where
  (defaults overrides : List (Text × Text))
  foldedOverrides : List Text

namespace ContentTypes

/-- One element of `[Content_Types].xml`; the first one is its root. Part names are canonicalized by
the given function. -/
def addElement (canonicalPart : Text → Except DocxError Text) :
    Option ContentTypes → XmlElement → Except DocxError (Option ContentTypes)
  | none, element => do
    requireElement element contentTypesNamespaces "Types"
    return some ⟨[], [], []⟩
  | some types, element =>
    if namespaceMatches element.nameSpace contentTypesNamespaces = false then
      .ok (some types)
    else if element.localName = "Default".toList then do
      let extension := (← requiredAttribute element "Extension").map Char.toLower
      let contentType ← requiredAttribute element "ContentType"
      rejectIf (extension = [] ∨ maxCanonicalPartUriBytes < utf8Len extension ∨
        (types.defaults.lookup extension).isSome) .requiredPartInvalid
      return some { types with defaults := types.defaults ++ [(extension, contentType)] }
    else if element.localName = "Override".toList then do
      let rawPart ← requiredAttribute element "PartName"
      let part ← canonicalPart rawPart
      let contentType ← requiredAttribute element "ContentType"
      rejectIf (part.map Char.toLower ∈ types.foldedOverrides ∨
        (types.overrides.lookup part).isSome) .requiredPartInvalid
      return some { types with
        overrides := types.overrides ++ [(part, contentType)]
        foldedOverrides := types.foldedOverrides ++ [part.map Char.toLower] }
    else
      .ok (some types)

def parse (R : XmlReader) (bytes : Bytes) (budget : R.Budget) :
    Except DocxError (ContentTypes × R.Budget) := do
  let (types, budget) ← parseXml R bytes budget none (addElement canonicalizePartUri)
  return (types.getD ⟨[], [], []⟩, budget)

def contentType (types : ContentTypes) (partUri : Text) : Option Text :=
  match types.overrides.lookup partUri with
  | some contentType => some contentType
  | none => do
    let (_, extension) ← rsplitOnce '.' partUri
    types.defaults.lookup (extension.map Char.toLower)

end ContentTypes

/-! ## §4 Relationships -/

structure Relationship where
  (id relationshipType target : Text)
  external : Bool

/-- Whether a target is external. -/
def targetMode : Option Text → Except DocxError Bool
  | none => .ok false
  | some mode => if mode = "External".toList then .ok true else .error .requiredPartInvalid

/-- The relationships of a part as far as they are read, and how many there are in all parts. The
root element comes first. -/
structure RelationshipsRead where
  rooted : Bool
  relationships : List Relationship
  total : ℕ

namespace RelationshipsRead

def addElement (read : RelationshipsRead) (element : XmlElement) :
    Except DocxError RelationshipsRead := do
  if read.rooted = false then
    requireElement element relationshipsNamespaces "Relationships"
    return { read with rooted := true }
  else if namespaceMatches element.nameSpace relationshipsNamespaces = false ∨
      element.localName ≠ "Relationship".toList then
    return read
  else
    rejectIf (read.relationships.length = maxRelationshipsPerPart) .packageLimitExceeded
    rejectIf (maxRelationshipsTotal < read.total + 1) .packageLimitExceeded
    let id ← requiredAttribute element "Id"
    rejectIf (id ∈ read.relationships.map Relationship.id) .requiredPartInvalid
    let relationshipType ← requiredAttribute element "Type"
    let target ← requiredAttribute element "Target"
    rejectIf (target = [] ∨ maxRelationshipTargetBytes < utf8Len target) .packageLimitExceeded
    let external ← targetMode (optionalAttribute element "TargetMode")
    return { read with
      relationships := read.relationships ++ [⟨id, relationshipType, target, external⟩]
      total := read.total + 1 }

end RelationshipsRead

/-- The relationships of a part, the budget and the number of relationships after it. -/
def parseRelationships (R : XmlReader) (bytes : Bytes) (budget : R.Budget) (total : ℕ) :
    Except DocxError (List Relationship × R.Budget × ℕ) := do
  let (read, budget) ← parseXml R bytes budget ⟨false, [], total⟩ RelationshipsRead.addElement
  return (read.relationships, budget, read.total)

/-- `strip_prefix` -/
def stripPrefix (start t : Text) : Option Text :=
  if start.isPrefixOf t then some (t.drop start.length) else none

def relationshipSuffix (relationshipType : Text) : Option Text :=
  match stripPrefix officeRelTransitional relationshipType with
  | some suffix => some suffix
  | none => stripPrefix officeRelStrict relationshipType

def isForbiddenRelationship (suffix : Text) : Bool :=
  suffix ∈ ["vbaProject", "oleObject", "package", "control", "attachedTemplate"].map String.toList

/-- Whether a relationship is of a forbidden type. -/
def Relationship.forbidden (relationship : Relationship) : Bool :=
  (relationshipSuffix relationship.relationshipType).any isForbiddenRelationship

/-- The target of an external hyperlink, if its scheme is supported. -/
def inertExternalTarget (target : Text) : Option Text :=
  if maxRelationshipTargetBytes < utf8Len target then
    none
  else if ':' ∈ target ∧ (target.takeWhile (· ≠ ':')).map Char.toLower ∈
      ["http", "https", "mailto"].map String.toList then
    some target
  else
    none

def addNotice (notices : List ExtractionNotice) (code message : String) : List ExtractionNotice :=
  if notices.length < maxNotices - 1 then
    notices ++ [⟨code, message⟩]
  else if notices.length = maxNotices - 1 then
    notices ++ [⟨"docx_notices_truncated", "additional DOCX extraction notices were omitted"⟩]
  else
    notices

/-! ## §5 Kinds of parts -/

/-- `wordprocessing::PartKind` -/
inductive PartKind where
  | document | header | footer | footnotes | endnotes | comments | styles

inductive PackagePartKind where
  | document
  | header
  | footer
  | footnotes
  | endnotes
  | comments
  | styles
  | coreProperties
  | extendedProperties
  | customProperties
  deriving DecidableEq

def PackagePartKind.wordprocessing : PackagePartKind → Option PartKind
  | document => some .document
  | header => some .header
  | footer => some .footer
  | footnotes => some .footnotes
  | endnotes => some .endnotes
  | comments => some .comments
  | styles => some .styles
  | coreProperties | extendedProperties | customProperties => none

def corePropertiesRelationships : List Text :=
  ["http://schemas.openxmlformats.org/package/2006/relationships/metadata/core-properties",
    "http://purl.oclc.org/ooxml/package/relationships/metadata/core-properties"].map String.toList

/-- The kinds by the suffix of their relationship. -/
def kindsBySuffix : List (Text × PackagePartKind) :=
  [("officeDocument".toList, .document), ("header".toList, .header), ("footer".toList, .footer),
    ("footnotes".toList, .footnotes), ("endnotes".toList, .endnotes),
    ("comments".toList, .comments), ("styles".toList, .styles),
    ("extended-properties".toList, .extendedProperties),
    ("custom-properties".toList, .customProperties)]

def packageRelationshipKind (relationshipType : Text) : Option PackagePartKind :=
  if relationshipType ∈ corePropertiesRelationships then
    some .coreProperties
  else do
    let suffix ← relationshipSuffix relationshipType
    kindsBySuffix.lookup suffix

/-- The content type a part of a kind has to have. -/
def PackagePartKind.contentType : PackagePartKind → Text
  | document => mainContentType
  | header =>
    "application/vnd.openxmlformats-officedocument.wordprocessingml.header+xml".toList
  | footer =>
    "application/vnd.openxmlformats-officedocument.wordprocessingml.footer+xml".toList
  | footnotes =>
    "application/vnd.openxmlformats-officedocument.wordprocessingml.footnotes+xml".toList
  | endnotes =>
    "application/vnd.openxmlformats-officedocument.wordprocessingml.endnotes+xml".toList
  | comments =>
    "application/vnd.openxmlformats-officedocument.wordprocessingml.comments+xml".toList
  | styles =>
    "application/vnd.openxmlformats-officedocument.wordprocessingml.styles+xml".toList
  | coreProperties => "application/vnd.openxmlformats-package.core-properties+xml".toList
  | extendedProperties =>
    "application/vnd.openxmlformats-officedocument.extended-properties+xml".toList
  | customProperties =>
    "application/vnd.openxmlformats-officedocument.custom-properties+xml".toList

def contentTypeMatchesKind (contentType : Option Text) (kind : PackagePartKind) : Bool :=
  contentType = some kind.contentType

def wordprocessingNamespaces : List Text :=
  ["http://schemas.openxmlformats.org/wordprocessingml/2006/main",
    "http://purl.oclc.org/ooxml/wordprocessingml/main"].map String.toList

def PartKind.root : PartKind → String
  | document => "document"
  | header => "hdr"
  | footer => "ftr"
  | footnotes => "footnotes"
  | endnotes => "endnotes"
  | comments => "comments"
  | styles => "styles"

/-- The root a part of a kind has to have, and the namespaces it may be in. -/
def PackagePartKind.root : PackagePartKind → String × List Text
  | coreProperties => ("coreProperties",
    ["http://schemas.openxmlformats.org/package/2006/metadata/core-properties",
      "http://purl.oclc.org/ooxml/package/metadata/core-properties"].map String.toList)
  | extendedProperties => ("Properties",
    ["http://schemas.openxmlformats.org/officeDocument/2006/extended-properties",
      "http://purl.oclc.org/ooxml/officeDocument/extended-properties"].map String.toList)
  | customProperties => ("Properties",
    ["http://schemas.openxmlformats.org/officeDocument/2006/custom-properties",
      "http://purl.oclc.org/ooxml/officeDocument/custom-properties"].map String.toList)
  | document => (PartKind.document.root, wordprocessingNamespaces)
  | header => (PartKind.header.root, wordprocessingNamespaces)
  | footer => (PartKind.footer.root, wordprocessingNamespaces)
  | footnotes => (PartKind.footnotes.root, wordprocessingNamespaces)
  | endnotes => (PartKind.endnotes.root, wordprocessingNamespaces)
  | comments => (PartKind.comments.root, wordprocessingNamespaces)
  | styles => (PartKind.styles.root, wordprocessingNamespaces)

/-- `validate_part` and `validate_selected_part`: the first element is the root of the kind. -/
def validateSelectedPart (R : XmlReader) (bytes : Bytes) (kind : PackagePartKind)
    (budget : R.Budget) : Except DocxError R.Budget := do
  let (rootChecked, budget) ← parseXml R bytes budget false fun rootChecked element =>
    if rootChecked then
      .ok true
    else do
      requireElement element kind.root.2 kind.root.1
      return true
  rejectIf (rootChecked = false) .requiredPartInvalid
  return budget

/-! ## §6 Loading -/

structure PackagePart where
  uri : Text
  kind : PackagePartKind
  bytes : Bytes

structure LoadState (R : XmlReader) where
  (selectedUncompressed selectedParts : ℕ)
  xmlBudget : R.Budget
  relationshipsTotal : ℕ
  visitedParts : List (Text × PackagePartKind)
  parts : List PackagePart
  /-- The targets by source part and relationship. -/
  relationshipTargets : List ((Text × Text) × PackagePartKind × Text)
  linksOut : List Text
  notices : List ExtractionNotice
  pending : List Text
  /-- History: the parts opened. -/
  opened : List Text
  /-- History: the parts whose relationships were processed. -/
  processed : List (Text × List Relationship)

variable {R : XmlReader} (inventory : ArchiveInventory)

/-- Opens one more part. -/
def openXml (partUri : Text) (state : LoadState R) : Except DocxError (Bytes × LoadState R) := do
  rejectIf (maxSelectedXmlParts < state.selectedParts + 1) .packageLimitExceeded
  let (bytes, selected) ← inventory.openSelectedXml state.selectedUncompressed partUri
  return (bytes, { state with
    selectedUncompressed := selected
    selectedParts := state.selectedParts + 1
    opened := state.opened ++ [partUri] })

def LoadState.notice (state : LoadState R) (code message : String) : LoadState R :=
  { state with notices := addNotice state.notices code message }

/-- Records what a relationship of a part leads to. -/
def LoadState.recordTarget (state : LoadState R) (sourcePart id : Text) (kind : PackagePartKind)
    (target : Text) : LoadState R :=
  { state with relationshipTargets := ((sourcePart, id), kind, target) :: state.relationshipTargets }

/-- Opens a part of a kind and keeps it. -/
def selectPart (partUri : Text) (kind : PackagePartKind) (state : LoadState R) :
    Except DocxError (LoadState R) := do
  let (bytes, state) ← openXml inventory partUri state
  let budget ← validateSelectedPart R bytes kind state.xmlBudget
  return { state with
    xmlBudget := budget
    visitedParts := state.visitedParts ++ [(partUri, kind)]
    parts := state.parts ++ [⟨partUri, kind, bytes⟩] }

/-- Records the target of a relationship, and opens it if it is new. -/
def selectRelatedPart (types : ContentTypes) (sourcePart : Text) (relationship : Relationship)
    (kind : PackagePartKind) (state : LoadState R) : Except DocxError (Bool × LoadState R) := do
  let target ← resolveRelationshipTarget sourcePart relationship.target
  if inventory.contains target = false then
    return (false, state.notice "docx_optional_part_unavailable"
      "an optional related DOCX text or metadata part is unavailable")
  else
    rejectIf (contentTypeMatchesKind (types.contentType target) kind = false) .requiredPartInvalid
    let state := state.recordTarget sourcePart relationship.id kind target
    match state.visitedParts.lookup target with
    | some existing =>
      rejectIf (existing ≠ kind) .requiredPartInvalid
      return (false, state)
    | none =>
      let state ← selectPart inventory target kind state
      return (true, state)

/-- One relationship of the package root. -/
def processRootRelationship (types : ContentTypes) (state : LoadState R)
    (relationship : Relationship) : Except DocxError (LoadState R) := do
  -- relocating a forbidden relationship into the package root must not evade the policy
  rejectIf relationship.forbidden .requiredPartInvalid
  match packageRelationshipKind relationship.relationshipType with
  | none => return state
  | some kind =>
    if kind = .document then
      return state
    else
      rejectIf relationship.external .requiredPartInvalid
      let (_, state) ← selectRelatedPart inventory types ['/'] relationship kind state
      return state

/-- Adds a link, unless it is there. The set beside the links has the same members. -/
def LoadState.addLink (state : LoadState R) (target : Text) : LoadState R :=
  if target ∈ state.linksOut then state else { state with linksOut := state.linksOut ++ [target] }

/-- Puts what a relationship of a part leads to at the end of the queue. -/
def LoadState.enqueueTarget (state : LoadState R) (sourcePart id : Text) : LoadState R :=
  match state.relationshipTargets.lookup (sourcePart, id) with
  | some (_, target) => { state with pending := state.pending ++ [target] }
  | none => state

/-- One external relationship of a part. -/
def processExternal (state : LoadState R) (relationship : Relationship) :
    Except DocxError (LoadState R) :=
  if relationshipSuffix relationship.relationshipType = some "hyperlink".toList then
    match inertExternalTarget relationship.target with
    | some target => .ok (state.addLink target)
    | none =>
      .ok (state.notice "docx_unresolved_relationship"
        "ignored an external hyperlink with an unsupported target scheme")
  else if (packageRelationshipKind relationship.relationshipType).isSome then
    .error .requiredPartInvalid
  else
    .ok (state.notice "docx_unresolved_relationship"
      "ignored an external relationship that is not a hyperlink")

/-- One relationship of a part that was taken from the queue. -/
def processRelationship (types : ContentTypes) (sourcePart : Text) (state : LoadState R)
    (relationship : Relationship) : Except DocxError (LoadState R) := do
  rejectIf relationship.forbidden .requiredPartInvalid
  if relationship.external then
    processExternal state relationship
  else
    match packageRelationshipKind relationship.relationshipType with
    | none => return state
    | some kind =>
      let (wasNew, state) ← selectRelatedPart inventory types sourcePart relationship kind state
      if wasNew ∧ kind.wordprocessing.isSome then
        return state.enqueueTarget sourcePart relationship.id
      else
        return state

/-- The part at the head of the queue. -/
def processPart (types : ContentTypes) (sourcePart : Text) (state : LoadState R) :
    Except DocxError (LoadState R) := do
  let relationshipsPart ← relationshipsPartUri sourcePart
  if inventory.contains relationshipsPart = false then
    return state
  else
    let (bytes, state) ← openXml inventory relationshipsPart state
    let (relationships, budget, total) ←
      parseRelationships R bytes state.xmlBudget state.relationshipsTotal
    let state ← relationships.foldlM (processRelationship inventory types sourcePart)
      { state with xmlBudget := budget, relationshipsTotal := total }
    return { state with processed := state.processed ++ [(sourcePart, relationships)] }

/-- Works through the queue, with at most the given number of parts. -/
def traverse (types : ContentTypes) : ℕ → LoadState R → Except DocxError (LoadState R)
  | 0, state => .ok state
  | fuel + 1, state =>
    match state.pending with
    | [] => .ok state
    | sourcePart :: rest => do
      let state ← processPart inventory types sourcePart { state with pending := rest }
      traverse types fuel state

/-- What is read before any part: the content types and the relationships of the package. -/
def loadRoot (R : XmlReader) : Except DocxError (ContentTypes × List Relationship × LoadState R) := do
  rejectIf (inventory.contains contentTypesPart = false ∨
      inventory.contains rootRelationshipsPart = false) .requiredPartInvalid
  let (bytes, state) ← openXml inventory contentTypesPart
    (⟨0, 0, R.fresh, 0, [], [], [], [], [], [], [], []⟩ : LoadState R)
  let (types, budget) ← ContentTypes.parse R bytes state.xmlBudget
  let (bytes, state) ← openXml inventory rootRelationshipsPart { state with xmlBudget := budget }
  let (relationships, budget, total) ←
    parseRelationships R bytes state.xmlBudget state.relationshipsTotal
  return (types, relationships, { state with xmlBudget := budget, relationshipsTotal := total })

/-- The one internal relationship to an office document. -/
def officeDocument (relationships : List Relationship) : Except DocxError Relationship :=
  match relationships.filter fun relationship =>
      relationshipSuffix relationship.relationshipType = some "officeDocument".toList with
  | [relationship] => if relationship.external then .error .requiredPartInvalid else .ok relationship
  | _ => .error .requiredPartInvalid

structure PackageFoundation (R : XmlReader) where
  mainPart : Text
  parts : List PackagePart
  relationshipTargets : List ((Text × Text) × PackagePartKind × Text)
  xmlBudget : R.Budget
  linksOut : List Text
  notices : List ExtractionNotice
  opened : List Text
  processed : List (Text × List Relationship)

namespace PackageFoundation

def relationshipTarget (foundation : PackageFoundation R) (sourcePart relationshipId : Text)
    (expectedKind : PackagePartKind) : Option Text :=
  (foundation.relationshipTargets.lookup (sourcePart, relationshipId)).bind fun entry =>
    if entry.1 = expectedKind then some entry.2 else none

/-- Loads a package, with at most the given number of parts from the queue. -/
def loadWithin (R : XmlReader) (inventory : ArchiveInventory) (rounds : ℕ) :
    Except DocxError (PackageFoundation R) := do
  let (types, relationships, state) ← loadRoot inventory R
  let office ← officeDocument relationships
  let mainPart ← resolveRelationshipTarget ['/'] office.target
  rejectIf (inventory.contains mainPart = false ∨
    types.contentType mainPart ≠ some mainContentType) .requiredPartInvalid
  let state ← selectPart inventory mainPart .document state
  let state ← relationships.foldlM (processRootRelationship inventory types) state
  let state ← traverse inventory types rounds { state with pending := [mainPart] }
  return ⟨mainPart, state.parts, state.relationshipTargets, state.xmlBudget, state.linksOut,
    state.notices, state.opened, state.processed⟩

/-- The queue is worked off before so many parts are through. -/
def load (R : XmlReader) (inventory : ArchiveInventory) : Except DocxError (PackageFoundation R) :=
  loadWithin R inventory (maxSelectedXmlParts + 1)

end PackageFoundation

/-! ## §7 Known packages -/

def relationshipElement (id suffix target : String) : XmlEvent :=
  leafElement relationshipsNamespaces.headI "Relationship" [("Id", id.toList),
    ("Type", officeRelTransitional ++ suffix.toList), ("Target", target.toList)]

def relationshipsXml (relationships : List XmlEvent) : List XmlEvent :=
  documentOf relationshipsNamespaces.headI "Relationships" [] relationships

def contentTypesXml (overrides : List (String × Text)) : List XmlEvent :=
  documentOf contentTypesNamespaces.headI "Types" [] (overrides.map fun entry =>
    leafElement contentTypesNamespaces.headI "Override" [("PartName", entry.1.toList),
      ("ContentType", entry.2)])

/-- The archive of some documents, by their part names. -/
def knownPackage (documents : List (String × List XmlEvent))
    (h : ∀ document ∈ documents,
      canonicalizeZipName (document.1.toList.drop 1) false = .ok document.1.toList) :
    ArchiveInventory where
  entries := documents.map fun document =>
    (document.1.toList, ⟨(renderXml document.2).length, (renderXml document.2).length,
      .ok (utf8 (renderXml document.2))⟩)
  canonical := by
    intro entry hentry
    obtain ⟨document, hmem, rfl⟩ := List.mem_map.mp hentry
    exact ⟨_, _, h document hmem⟩

end Kwiry.Docx
