import Kwiry.Docx.Opc

/-!
# The Package of an Excel Workbook

`excel/opc.rs` and `excel/error.rs`. The archive, the XML reader, part names and content types are
those of DOCX packages. A workbook is found through the package root; its sheets are opened through
its relationships, and every part through the type it is declared to have.
-/

namespace Kwiry.Excel

open Foundations Docx

inductive ExcelError where
  | notSpreadsheet
  | invalidPackage
  | integrityFailed
  | requiredPartInvalid
  | packageLimitExceeded
  | xmlLimitExceeded
  | forbiddenXmlConstruct
  | encryptedPackage
  | unsupportedCompression
  | unsupportedXmlEncoding

namespace ExcelError

def ofPackage : DocxError → ExcelError
  | .invalidPackage => invalidPackage
  | .integrityFailed => integrityFailed
  | .requiredPartInvalid => requiredPartInvalid
  | .packageLimitExceeded => packageLimitExceeded
  | .xmlLimitExceeded => xmlLimitExceeded
  | .forbiddenXmlConstruct => forbiddenXmlConstruct
  | .encryptedPackage => encryptedPackage
  | .unsupportedCompression => unsupportedCompression
  | .unsupportedXmlEncoding => unsupportedXmlEncoding

end ExcelError

/-- `map_err(ExcelError::from)` -/
def ofPackage {S : Type} (x : Except DocxError S) : Except ExcelError S :=
  x.mapError ExcelError.ofPackage

/-! ## §1 Relationships -/

def cfbSignature : Bytes := [0xd0, 0xcf, 0x11, 0xe0, 0xa1, 0xb1, 0x1a, 0xe1]

/-- A relationship type in the transitional and in the strict form. -/
def officeRelationships (suffix : String) : List Text :=
  [officeRelTransitional ++ suffix.toList, officeRelStrict ++ suffix.toList]

section

variable (relationship : Relationship)

def isOfficeDocument : Bool :=
  relationship.relationshipType ∈ officeRelationships "officeDocument"

def isWorksheet : Bool :=
  relationship.relationshipType ∈ officeRelationships "worksheet"

def isSharedStrings : Bool :=
  relationship.relationshipType ∈ officeRelationships "sharedStrings"

def isComments : Bool :=
  relationship.relationshipType ∈ officeRelationships "comments"

def isThreadedComments : Bool :=
  relationship.relationshipType ∈
    ["http://schemas.microsoft.com/office/2017/10/relationships/threadedComment".toList,
      "http://schemas.microsoft.com/office/2017/10/relationships/threadedComments".toList] ++
    officeRelationships "threadedComment" ++ officeRelationships "threadedComments"

def isVbaPayload : Bool :=
  relationship.relationshipType ∈
    ["http://schemas.microsoft.com/office/2006/relationships/vbaProject",
      "http://schemas.microsoft.com/office/2006/relationships/vbaData",
      "http://schemas.microsoft.com/office/2006/relationships/vbaProjectSignature",
      "http://schemas.microsoft.com/office/2014/relationships/vbaProjectSignatureAgile",
      "http://schemas.microsoft.com/office/2020/07/relationships/vbaProjectSignatureV3"].map
      String.toList

end

def isVbaPayloadContentType (contentType : Text) : Bool :=
  contentType ∈
    ["application/vnd.ms-office.vbaProject",
      "application/vnd.ms-excel.vbaData+xml",
      "application/vnd.ms-office.vbaProjectSignature",
      "application/vnd.ms-office.vbaProjectSignatureAgile",
      "application/vnd.ms-office.vbaProjectSignatureV3"].map String.toList

/-- Whether the last segment of a name is that of a VBA part. -/
def isVbaPayloadUri (uri : Text) : Bool :=
  (uri.reverse.takeWhile (· ≠ '/')).reverse.map Char.toLower ∈
    ["vbaProject.bin", "vbaData.xml", "vbaProjectSignature.bin", "vbaProjectSignatureAgile.bin",
      "vbaProjectSignatureV3.bin"].map fun name => name.toList.map Char.toLower

def xlsxWorkbookContentType : Text :=
  "application/vnd.openxmlformats-officedocument.spreadsheetml.sheet.main+xml".toList

def xlsmWorkbookContentType : Text :=
  "application/vnd.ms-excel.sheet.macroEnabled.main+xml".toList

def worksheetContentType : Text :=
  "application/vnd.openxmlformats-officedocument.spreadsheetml.worksheet+xml".toList

def sharedStringsContentType : Text :=
  "application/vnd.openxmlformats-officedocument.spreadsheetml.sharedStrings+xml".toList

def commentsContentType : Text :=
  "application/vnd.openxmlformats-officedocument.spreadsheetml.comments+xml".toList

/-- `canonical_part_uri` -/
def canonicalPartUri (uri : Text) : Except DocxError Text := do
  rejectIf (uri.head? ≠ some '/' ∨ uri.getLast? = some '/' ∨ uri.any isReserved)
    .requiredPartInvalid
  resolveRelationshipTarget ['/'] uri

/-- One element of a relationship part, as `RelationshipsRead.addElement` with its checks in another
order. -/
def addRelationship (read : RelationshipsRead) (element : XmlElement) :
    Except DocxError RelationshipsRead := do
  if read.rooted = false then
    requireElement element relationshipsNamespaces "Relationships"
    return { read with rooted := true }
  else if namespaceMatches element.nameSpace relationshipsNamespaces = false ∨
      element.localName ≠ "Relationship".toList then
    return read
  else
    rejectIf (read.relationships.length = maxRelationshipsPerPart) .packageLimitExceeded
    rejectIf (maxRelationshipsTotal < read.total + 1) .packageLimitExceeded
    let id ← requiredAttribute element "Id"
    rejectIf (id ∈ read.relationships.map Relationship.id) .requiredPartInvalid
    let target ← requiredAttribute element "Target"
    rejectIf (target = [] ∨ maxRelationshipTargetBytes < utf8Len target) .packageLimitExceeded
    let external ← targetMode (optionalAttribute element "TargetMode")
    let relationshipType ← requiredAttribute element "Type"
    return { read with
      relationships := read.relationships ++ [⟨id, relationshipType, target, external⟩]
      total := read.total + 1 }

/-! ## §2 Reading parts -/

/-- What reading parts uses up. -/
structure ReadState (R : XmlReader) where
  (selectedUncompressed selectedParts relationshipsTotal : ℕ)
  xmlBudget : R.Budget

variable {R : XmlReader}

def openXml (inventory : ArchiveInventory) (uri : Text) (state : ReadState R) :
    Except ExcelError (Bytes × ReadState R) := do
  rejectIf (maxSelectedXmlParts < state.selectedParts + 1) .packageLimitExceeded
  let (bytes, selected) ←
    ofPackage (inventory.openSelectedXml state.selectedUncompressed uri)
  return (bytes, { state with
    selectedUncompressed := selected
    selectedParts := state.selectedParts + 1 })

/-- `ContentTypes::parse` -/
def parseContentTypes (bytes : Bytes) (state : ReadState R) :
    Except ExcelError (ContentTypes × ReadState R) := do
  let (types, budget) ← ofPackage
    (parseXml R bytes state.xmlBudget none (ContentTypes.addElement canonicalPartUri))
  match types with
  | some types => return (types, { state with xmlBudget := budget })
  | none => .error .requiredPartInvalid

def parseRelationships (bytes : Bytes) (state : ReadState R) :
    Except ExcelError (List Relationship × ReadState R) := do
  let (read, budget) ← ofPackage
    (parseXml R bytes state.xmlBudget ⟨false, [], state.relationshipsTotal⟩ addRelationship)
  rejectIf (read.rooted = false) .requiredPartInvalid
  return (read.relationships,
    { state with xmlBudget := budget, relationshipsTotal := read.total })

structure ExcelPackage where
  inventory : ArchiveInventory
  contentTypes : ContentTypes
  workbookUri : Text
  workbookBytes : Bytes
  workbookRelationships : List Relationship

namespace ExcelPackage

/-- The one internal relationship to an office document. -/
def officeDocument (relationships : List Relationship) : Except ExcelError Relationship :=
  match relationships.filter isOfficeDocument with
  | [] => .error .notSpreadsheet
  | [relationship] => if relationship.external then .error .requiredPartInvalid else .ok relationship
  | _ => .error .requiredPartInvalid

/-- `open`, once the archive is read. -/
def openPackage (R : XmlReader) (inventory : ArchiveInventory) :
    Except ExcelError (ExcelPackage × ReadState R) := do
  rejectIf (inventory.contains contentTypesPart = false ∨
    inventory.contains rootRelationshipsPart = false) .notSpreadsheet
  let (bytes, state) ← openXml inventory contentTypesPart (⟨0, 0, 0, R.fresh⟩ : ReadState R)
  let (types, state) ← parseContentTypes bytes state
  let (bytes, state) ← openXml inventory rootRelationshipsPart state
  let (relationships, state) ← parseRelationships bytes state
  let office ← officeDocument relationships
  let workbookUri ← ofPackage (resolveRelationshipTarget ['/'] office.target)
  rejectIf (isVbaPayloadUri workbookUri) .requiredPartInvalid
  rejectIf (inventory.contains workbookUri = false) .notSpreadsheet
  rejectIf (types.contentType workbookUri ∉
    [some xlsxWorkbookContentType, some xlsmWorkbookContentType]) .notSpreadsheet
  let (workbookBytes, state) ← openXml inventory workbookUri state
  let relationshipsUri ← ofPackage (relationshipsPartUri workbookUri)
  if inventory.contains relationshipsUri then
    let (bytes, state) ← openXml inventory relationshipsUri state
    let (relationships, state) ← parseRelationships bytes state
    return (⟨inventory, types, workbookUri, workbookBytes, relationships⟩, state)
  else
    return (⟨inventory, types, workbookUri, workbookBytes, []⟩, state)

/-- `open`, with a reader of archives. -/
def openBytes (R : XmlReader) (archive : Bytes → Except DocxError ArchiveInventory)
    (bytes : Bytes) : Except ExcelError (ExcelPackage × ReadState R) := do
  rejectIf (cfbSignature <+: bytes) .encryptedPackage
  let inventory ← ofPackage (archive bytes)
  openPackage R inventory

/-- The target of a relationship within the package. -/
def resolveInternal (sourcePart : Text) (relationship : Relationship) : Except ExcelError Text := do
  rejectIf (relationship.external ∨ isVbaPayload relationship) .requiredPartInvalid
  let target ← ofPackage (resolveRelationshipTarget sourcePart relationship.target)
  rejectIf (isVbaPayloadUri target) .requiredPartInvalid
  return target

variable (package : ExcelPackage)

def workbookRelationship (id : Text) : Option Relationship :=
  package.workbookRelationships.find? fun relationship => relationship.id = id

def openTypedXml (uri expectedContentType : Text) (state : ReadState R) :
    Except ExcelError (Bytes × ReadState R) := do
  rejectIf (isVbaPayloadUri uri ∨ (package.contentTypes.contentType uri).any isVbaPayloadContentType ∨
    package.contentTypes.contentType uri ≠ some expectedContentType) .requiredPartInvalid
  openXml package.inventory uri state

def relationshipsForPart (sourcePart : Text) (state : ReadState R) :
    Except ExcelError (List Relationship × ReadState R) := do
  let uri ← ofPackage (relationshipsPartUri sourcePart)
  if package.inventory.contains uri = false then
    return ([], state)
  else
    let (bytes, state) ← openXml package.inventory uri state
    parseRelationships bytes state

end ExcelPackage

end Kwiry.Excel
