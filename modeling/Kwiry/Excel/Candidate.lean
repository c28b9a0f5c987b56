import Kwiry.Excel.Spreadsheet

/-!
# Extracting a Workbook

`excel.rs`: the sections of a workbook. The global names come first; every sheet then gives its
name, its own names and its cells, row by row.
-/

namespace Kwiry.Excel

open Foundations Docx
open Pdf (ExtractionNotice)

def maxOutputBytes : ℕ := 10 * 1024 * 1024
def maxOutputSections : ℕ := maxExtractedSectionsPerSource
def maxOutputHeadingBytes : ℕ := 10 * 1024 * 1024

structure ExcelCellLocator where
  (sheet cell : Text)
  deriving DecidableEq

structure ExcelSection where
  headingPath : List Text
  content : Text
  role : ContentRole
  locator : Option ExcelCellLocator
  deriving DecidableEq

structure ExcelCandidate where
  sections : List ExcelSection
  coverage : ExtractionCoverage
  notices : List ExtractionNotice

/-- The sections written so far, and what they use up. -/
structure OutputBudget where
  (bytes sections headingBytes : ℕ)
  output : List ExcelSection

/-- One more section, unless it is empty. -/
def OutputBudget.push (budget : OutputBudget) (piece : ExcelSection) :
    Except ExcelError OutputBudget := do
  if piece.content = [] then
    return budget
  else
    rejectIf (maxOutputBytes < budget.bytes + utf8Len piece.content) .xmlLimitExceeded
    rejectIf (maxOutputSections < budget.sections + 1) .xmlLimitExceeded
    let headingBytes := (piece.headingPath.map utf8Len).sum
    rejectIf (maxOutputHeadingBytes < budget.headingBytes + headingBytes) .xmlLimitExceeded
    return ⟨budget.bytes + utf8Len piece.content, budget.sections + 1,
      budget.headingBytes + headingBytes, budget.output ++ [piece]⟩

/-- `push_notice` -/
def pushNotice (notices : List ExtractionNotice) (code message : String) : List ExtractionNotice :=
  if notices.length < maxNotices - 1 then
    notices ++ [⟨code, message⟩]
  else if notices.length = maxNotices - 1 then
    notices ++ [⟨"excel_notices_truncated", "additional Excel extraction notices were omitted"⟩]
  else
    notices

/-- The role of what may be hidden. -/
def visibleRole (hidden : Bool) : ContentRole :=
  if hidden then .latent else .primary

def emitDefinedName (headingPath : List Text) (sheetHidden : Bool) (budget : OutputBudget)
    (name : DefinedName) : Except ExcelError OutputBudget := do
  let budget ← budget.push
    ⟨headingPath, name.name, visibleRole (name.hidden || sheetHidden), none⟩
  budget.push ⟨headingPath, name.definition, .latent, none⟩

def emitGlobalDefinedNames (workbook : WorkbookModel) (budget : OutputBudget) :
    Except ExcelError OutputBudget :=
  (workbook.definedNames.filter fun name => name.localSheet.isNone).foldlM
    (emitDefinedName [] false) budget

def emitSheetPrelude (sheetIndex : ℕ) (sheet : SheetDescriptor) (names : List DefinedName)
    (budget : OutputBudget) : Except ExcelError OutputBudget := do
  let budget ← budget.push
    ⟨[sheet.name], sheet.name, visibleRole sheet.visibility.isHidden, none⟩
  (names.filter fun name => name.localSheet = some sheetIndex).foldlM
    (emitDefinedName [sheet.name] sheet.visibility.isHidden) budget

/-- The sections of a cell: its value, its formula and its comment. -/
def cellSections (sheet : SheetDescriptor) (coordinate : CellCoordinate) (cell : CellRecord) :
    List ExcelSection :=
  let locator := some ⟨sheet.name, coordinate.a1⟩
  (cell.value.map fun value =>
      ⟨[sheet.name], value, visibleRole (sheet.visibility.isHidden || cell.hidden), locator⟩).toList ++
    (cell.formula.map fun formula => ⟨[sheet.name], formula, .latent, locator⟩).toList ++
    (cell.comment.map fun comment => ⟨[sheet.name], comment, .latent, locator⟩).toList

def emitCell (sheet : SheetDescriptor) (budget : OutputBudget)
    (entry : CellCoordinate × CellRecord) : Except ExcelError OutputBudget :=
  (cellSections sheet entry.1 entry.2).foldlM OutputBudget.push budget

variable {R : XmlReader}

/-- What extraction goes through: the parts read, the notices and the sections. -/
structure ExtractState (R : XmlReader) where
  reading : ReadState R
  notices : List ExtractionNotice
  budget : OutputBudget

/-- The one comments relationship of a worksheet, and the notices on threaded comments. -/
def selectComments (state : Option Relationship × List ExtractionNotice)
    (relationship : Relationship) :
    Except ExcelError (Option Relationship × List ExtractionNotice) :=
  if isComments relationship then
    match state.1 with
    | none => .ok (some relationship, state.2)
    | some _ => .error .requiredPartInvalid
  else if isThreadedComments relationship then
    .ok (state.1, pushNotice state.2 "excel_threaded_comments_unopened"
      "threaded Excel comments were left unopened")
  else
    .ok state

section

variable (package : ExcelPackage)

/-- Reads the comments of a worksheet and gives them to its cells. -/
def attachComments (sheet : SheetDescriptor) (worksheetUri : Text) (worksheet : WorksheetModel)
    (relationship : Option Relationship) (reading : ReadState R) (notices : List ExtractionNotice) :
    Except ExcelError (WorksheetModel × ReadState R × List ExtractionNotice) :=
  match relationship with
  | none => .ok (worksheet, reading, notices)
  | some relationship => do
    let target ← ExcelPackage.resolveInternal worksheetUri relationship
    if package.inventory.contains target then
      let (bytes, reading) ← package.openTypedXml target commentsContentType reading
      let (comments, budget) ← parseComments bytes reading.xmlBudget
      return (mergeComments worksheet comments sheet.visibility.isHidden,
        { reading with xmlBudget := budget }, notices)
    else
      return (worksheet, reading, pushNotice notices "excel_optional_comments_unavailable"
        "an Excel comments part referenced by a worksheet is unavailable")

/-- The part of a sheet. -/
def worksheetUri (sheet : SheetDescriptor) : Except ExcelError Text :=
  match package.workbookRelationship sheet.relationshipId with
  | none => .error .requiredPartInvalid
  | some relationship => do
    rejectIf (isWorksheet relationship = false) .requiredPartInvalid
    let uri ← ExcelPackage.resolveInternal package.workbookUri relationship
    rejectIf (package.inventory.contains uri = false) .requiredPartInvalid
    return uri

/-- Reads a sheet with its comments. -/
def readSheet (sharedStrings : Option (List Text)) (sheet : SheetDescriptor) (reading : ReadState R)
    (notices : List ExtractionNotice) :
    Except ExcelError (WorksheetModel × ReadState R × List ExtractionNotice) := do
  let uri ← worksheetUri package sheet
  let (bytes, reading) ← package.openTypedXml uri worksheetContentType reading
  let (worksheet, budget) ← parseWorksheet bytes sharedStrings reading.xmlBudget
  let (relationships, reading) ←
    package.relationshipsForPart uri { reading with xmlBudget := budget }
  let (relationship, notices) ← relationships.foldlM selectComments (none, notices)
  attachComments package sheet uri worksheet relationship reading notices

def emitSheet (workbook : WorkbookModel) (sharedStrings : Option (List Text))
    (state : ExtractState R) (entry : SheetDescriptor × ℕ) :
    Except ExcelError (ExtractState R) := do
  let budget ← emitSheetPrelude entry.2 entry.1 workbook.definedNames state.budget
  let (worksheet, reading, notices) ←
    readSheet package sharedStrings entry.1 state.reading state.notices
  let budget ← worksheet.cells.toList.foldlM (emitCell entry.1) budget
  return ⟨reading, notices, budget⟩

def loadSharedStrings (reading : ReadState R) :
    Except ExcelError (Option (List Text) × ReadState R) :=
  match package.workbookRelationships.filter isSharedStrings with
  | [] => .ok (none, reading)
  | [relationship] => do
    let target ← ExcelPackage.resolveInternal package.workbookUri relationship
    if package.inventory.contains target = false then
      return (none, reading)
    else
      let (bytes, reading) ← package.openTypedXml target sharedStringsContentType reading
      let (strings, budget) ← parseSharedStrings bytes reading.xmlBudget
      return (some strings, { reading with xmlBudget := budget })
  | _ => .error .requiredPartInvalid

end

/-- The coverage of a workbook, and its notices. -/
def closeCandidate (sections : List ExcelSection) (notices : List ExtractionNotice) :
    ExcelCandidate :=
  if sections = [] then
    ⟨sections, .skippedNoExtractableText, pushNotice notices "excel_no_extractable_text"
      "the Excel workbook contains no searchable text"⟩
  else if notices = [] then
    ⟨sections, .indexedComplete, notices⟩
  else
    ⟨sections, .indexedPartial, notices⟩

def extractCandidate (R : XmlReader) (archive : Bytes → Except DocxError ArchiveInventory)
    (bytes : Bytes) : Except ExcelError ExcelCandidate := do
  let (package, reading) ← ExcelPackage.openBytes R archive bytes
  let (workbook, budget) ← parseWorkbook package.workbookBytes reading.xmlBudget
  let (sharedStrings, reading) ← loadSharedStrings package { reading with xmlBudget := budget }
  let output ← emitGlobalDefinedNames workbook ⟨0, 0, 0, []⟩
  let state ← workbook.sheets.zipIdx.foldlM (emitSheet package workbook sharedStrings)
    (⟨reading, [], output⟩ : ExtractState R)
  return closeCandidate state.budget.output state.notices

end Kwiry.Excel
