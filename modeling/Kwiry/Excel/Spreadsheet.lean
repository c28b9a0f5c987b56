import Kwiry.Excel.Opc
import Kwiry.Foundations.Decimal
import Kwiry.Foundations.TreeMaps

/-!
# Spreadsheets

`excel/spreadsheet.rs`: the workbook, the shared strings, a worksheet and its comments are each read
from the events of a part. A worksheet keeps the row and the cell it is in, the cells it has closed,
and the hidden column ranges, which are applied to the cells at the end.
-/

namespace Kwiry.Excel

open Foundations Docx

def maxExtractedSectionsPerSource : ℕ := 100000
def maxWorkbookSheets : ℕ := maxSelectedXmlParts
def maxSheetNameBytes : ℕ := 1024 * 1024
def maxSharedStringEntries : ℕ := maxExtractedSectionsPerSource
def maxSharedStringBytes : ℕ := 10 * 1024 * 1024
def maxCellRecords : ℕ := maxExtractedSectionsPerSource
def maxComments : ℕ := maxExtractedSectionsPerSource
def maxCommentBytes : ℕ := 10 * 1024 * 1024
def maxDefinedNames : ℕ := 4096
def maxDefinedNameBytes : ℕ := 1024 * 1024
def maxColumnRangesPerSheet : ℕ := 4096
def maxExcelRows : ℕ := 1048576
def maxExcelColumns : ℕ := 16384

def spreadsheetNamespaces : List Text :=
  ["http://schemas.openxmlformats.org/spreadsheetml/2006/main",
    "http://purl.oclc.org/ooxml/spreadsheetml/main"].map String.toList

def isSpreadsheetName (nameSpace : Option Text) (actual : Text) (expected : String) : Bool :=
  actual = expected.toList ∧ namespaceMatches nameSpace spreadsheetNamespaces

def isSpreadsheetElement (element : XmlElement) (localName : String) : Bool :=
  isSpreadsheetName element.nameSpace element.localName localName

def requireSpreadsheetElement (element : XmlElement) (localName : String) : Except DocxError Unit :=
  rejectIf (isSpreadsheetElement element localName = false) .requiredPartInvalid

/-! ## §1 Attributes -/

/-- `parse` of a text of digits, as a number of this many bits. -/
def parseDigits (bits : ℕ) (value : Text) : Option ℕ :=
  if value.any fun c => ¬ c.isDigit then none else parseUnsigned (2 ^ bits) value

def parseGridNumber (value : Text) (maximum : ℕ) : Except DocxError ℕ :=
  match parseDigits 32 value with
  | some number =>
    if 0 < number ∧ number ≤ maximum then .ok number else .error .requiredPartInvalid
  | none => .error .requiredPartInvalid

def parseUsize (value : Text) : Except DocxError ℕ :=
  match parseDigits 64 value with
  | some number => .ok number
  | none => .error .requiredPartInvalid

def parseBool (value : Text) : Except DocxError Bool :=
  if value ∈ ["1".toList, "true".toList] then .ok true
  else if value ∈ ["0".toList, "false".toList] then .ok false
  else .error .requiredPartInvalid

/-- An attribute that may be missing. -/
def parsedAttribute {S : Type} (element : XmlElement) (name : String)
    (parse : Text → Except DocxError S) : Except DocxError (Option S) :=
  match optionalAttribute element name with
  | none => .ok none
  | some value => (parse value).map some

def hiddenAttribute (element : XmlElement) : Except DocxError Bool := do
  let hidden ← parsedAttribute element "hidden" parseBool
  return hidden.getD false

/-- The parsers of parts check the first element they see, and hand on every other event. -/
def afterRoot {S : Type} (root : String) (onEvent : S → XmlEvent → Except DocxError S)
    (state : Bool × S) (event : XmlEvent) : Except DocxError (Bool × S) :=
  match state.1, event.element with
  | false, some element => do
    requireSpreadsheetElement element root
    return (true, state.2)
  | rootChecked, _ => do
    let next ← onEvent state.2 event
    return (rootChecked, next)

/-- Adds to a total that must stay within a limit. -/
def charge (total bytes limit : ℕ) : Except DocxError ℕ :=
  if total + bytes ≤ limit then .ok (total + bytes) else .error .packageLimitExceeded

/-! ## §2 The workbook -/

inductive SheetVisibility where
  | visible | hidden | veryHidden

def SheetVisibility.isHidden : SheetVisibility → Bool
  | visible => false
  | hidden | veryHidden => true

structure SheetDescriptor where
  (name relationshipId : Text)
  visibility : SheetVisibility

structure DefinedName where
  (name definition : Text)
  localSheet : Option ℕ
  hidden : Bool

structure WorkbookModel where
  sheets : List SheetDescriptor
  definedNames : List DefinedName

structure WorkbookState where
  workbook : WorkbookModel
  (sheetNameBytes definedNameBytes : ℕ)
  pendingName : Option DefinedName

namespace WorkbookState

def parseVisibility (state : Option Text) : Except DocxError SheetVisibility :=
  match state with
  | none => .ok .visible
  | some state =>
    if state = "visible".toList then .ok .visible
    else if state = "hidden".toList then .ok .hidden
    else if state = "veryHidden".toList then .ok .veryHidden
    else .error .requiredPartInvalid

def addSheet (state : WorkbookState) (element : XmlElement) : Except DocxError WorkbookState := do
  rejectIf (state.workbook.sheets.length = maxWorkbookSheets) .packageLimitExceeded
  let name ← requiredAttribute element "name"
  rejectIf (name = []) .requiredPartInvalid
  let bytes ← charge state.sheetNameBytes (utf8Len name) maxSheetNameBytes
  let relationshipId ← requiredAttribute element "r:id"
  let visibility ← parseVisibility (optionalAttribute element "state")
  return { state with
    sheetNameBytes := bytes
    workbook := { state.workbook with
      sheets := state.workbook.sheets ++ [⟨name, relationshipId, visibility⟩] } }

/-- A defined name as its start tag declares it. -/
def declaredName (element : XmlElement) : Except DocxError DefinedName := do
  let name ← requiredAttribute element "name"
  let localSheet ← parsedAttribute element "localSheetId" parseUsize
  let hidden ← hiddenAttribute element
  return ⟨name, [], localSheet, hidden⟩

def addDefinedName (state : WorkbookState) (name : DefinedName) :
    Except DocxError WorkbookState := do
  let bytes ← charge state.definedNameBytes (utf8Len name.name + utf8Len name.definition)
    maxDefinedNameBytes
  return { state with
    definedNameBytes := bytes
    workbook := { state.workbook with definedNames := state.workbook.definedNames ++ [name] } }

def onEvent (state : WorkbookState) : XmlEvent → Except DocxError WorkbookState
  | .start element =>
    if isSpreadsheetElement element "sheet" then
      state.addSheet element
    else if isSpreadsheetElement element "definedName" then do
      rejectIf (state.pendingName.isSome ∨ state.workbook.definedNames.length = maxDefinedNames)
        .packageLimitExceeded
      let name ← declaredName element
      return { state with pendingName := some name }
    else
      .ok state
  | .empty element =>
    if isSpreadsheetElement element "sheet" then
      state.addSheet element
    else if isSpreadsheetElement element "definedName" then do
      rejectIf (state.workbook.definedNames.length = maxDefinedNames) .packageLimitExceeded
      let name ← declaredName element
      state.addDefinedName name
    else
      .ok state
  | .text text =>
    .ok { state with
      pendingName := state.pendingName.map fun name =>
        { name with definition := name.definition ++ text } }
  | .stop nameSpace localName =>
    if isSpreadsheetName nameSpace localName "definedName" then
      match state.pendingName with
      | some name => { state with pendingName := none }.addDefinedName name
      | none => .error .requiredPartInvalid
    else
      .ok state

end WorkbookState

variable {R : XmlReader}

def parseWorkbook (bytes : Bytes) (budget : R.Budget) :
    Except ExcelError (WorkbookModel × R.Budget) := do
  let ((rootChecked, state), budget) ← ofPackage (parseXmlEvents R bytes budget
    (false, (⟨⟨[], []⟩, 0, 0, none⟩ : WorkbookState)) (afterRoot "workbook" WorkbookState.onEvent))
  rejectIf (rootChecked = false ∨ state.pendingName.isSome) .requiredPartInvalid
  rejectIf (state.workbook.definedNames.any fun name =>
    name.localSheet.any fun index => state.workbook.sheets.length ≤ index) .requiredPartInvalid
  return (state.workbook, budget)

/-! ## §3 Shared strings -/

structure SharedStringsState where
  strings : List Text
  retainedBytes : ℕ
  current : Option Text
  phoneticDepth : ℕ
  captureText : Bool

namespace SharedStringsState

def onEvent (state : SharedStringsState) : XmlEvent → Except DocxError SharedStringsState
  | .start element =>
    if isSpreadsheetElement element "si" then do
      rejectIf (state.current.isSome ∨ state.strings.length = maxSharedStringEntries)
        .packageLimitExceeded
      return { state with current := some [] }
    else if state.current.isSome ∧ isSpreadsheetElement element "rPh" then do
      rejectIf (2 ^ 64 ≤ state.phoneticDepth + 1) .xmlLimitExceeded
      return { state with phoneticDepth := state.phoneticDepth + 1 }
    else if state.current.isSome ∧ state.phoneticDepth = 0 ∧ isSpreadsheetElement element "t" then
      .ok { state with captureText := true }
    else
      .ok state
  | .empty element =>
    if isSpreadsheetElement element "si" then do
      rejectIf (state.strings.length = maxSharedStringEntries) .packageLimitExceeded
      return { state with strings := state.strings ++ [[]] }
    else
      .ok state
  | .text text =>
    if state.captureText then
      match state.current with
      | some current => .ok { state with current := some (current ++ text) }
      | none => .error .requiredPartInvalid
    else
      .ok state
  | .stop nameSpace localName =>
    if isSpreadsheetName nameSpace localName "t" then
      .ok { state with captureText := false }
    else if isSpreadsheetName nameSpace localName "rPh" then do
      rejectIf (state.phoneticDepth = 0) .requiredPartInvalid
      return { state with phoneticDepth := state.phoneticDepth - 1 }
    else if isSpreadsheetName nameSpace localName "si" then
      match state.current with
      | some value => do
        let retained ← charge state.retainedBytes (utf8Len value) maxSharedStringBytes
        return { state with
          current := none
          retainedBytes := retained
          strings := state.strings ++ [value] }
      | none => .error .requiredPartInvalid
    else
      .ok state

end SharedStringsState

def parseSharedStrings (bytes : Bytes) (budget : R.Budget) :
    Except ExcelError (List Text × R.Budget) := do
  let ((rootChecked, state), budget) ← ofPackage (parseXmlEvents R bytes budget
    (false, (⟨[], 0, none, 0, false⟩ : SharedStringsState))
    (afterRoot "sst" SharedStringsState.onEvent))
  rejectIf (rootChecked = false ∨ state.current.isSome ∨ state.phoneticDepth ≠ 0)
    .requiredPartInvalid
  return (state.strings, budget)

/-! ## §4 Cells -/

@[ext]
structure CellCoordinate where
  (row column : ℕ)
  deriving DecidableEq

namespace CellCoordinate

/-- Row by row, and by column within a row. -/
def order : CellCoordinate → CellCoordinate → Ordering :=
  compareLex (compareOn CellCoordinate.row) (compareOn CellCoordinate.column)

instance : Std.TransCmp order :=
  inferInstanceAs (Std.TransCmp (compareLex _ _))

/-- The letters of a column, the last one first. -/
def letters (column : ℕ) : Text :=
  if column = 0 then []
  else Char.ofNat ('A'.toNat + (column - 1) % 26) :: letters ((column - 1) / 26)
decreasing_by omega

def a1 (coordinate : CellCoordinate) : Text :=
  (letters coordinate.column).reverse ++ Nat.toDigits 10 coordinate.row

end CellCoordinate

/-- One more letter of a column, as a 32-bit number. -/
def pushLetter (column : Option ℕ) (letter : Char) : Option ℕ := do
  let column ← column
  let next := 26 * column + (letter.toUpper.toNat - 'A'.toNat + 1)
  if next < 2 ^ 32 then some next else none

def parseA1 (value : Text) : Except DocxError CellCoordinate :=
  let letters := value.takeWhile Char.isAlpha
  let digits := value.dropWhile Char.isAlpha
  if letters = [] ∨ digits = [] ∨ digits.any (fun c => ¬ c.isDigit) then
    .error .requiredPartInvalid
  else
    match letters.foldl pushLetter (some 0) with
    | some column =>
      if 0 < column ∧ column ≤ maxExcelColumns then do
        let row ← parseGridNumber digits maxExcelRows
        return ⟨row, column⟩
      else
        .error .requiredPartInvalid
    | none => .error .requiredPartInvalid

inductive CellType where
  | number | shared | string | inline | boolean | error | date

def parseCellType (value : Option Text) : Except DocxError CellType :=
  match value with
  | none => .ok .number
  | some value =>
    match [("n", CellType.number), ("s", .shared), ("str", .string), ("inlineStr", .inline),
        ("b", .boolean), ("e", .error), ("d", .date)].find? fun entry =>
        entry.1.toList = value with
    | some entry => .ok entry.2
    | none => .error .requiredPartInvalid

inductive CellField where
  | value | formula

structure CellBuilder where
  coordinate : CellCoordinate
  cellType : CellType
  rowHidden : Bool
  (value formula : Option Text)
  inline : Text
  sawInline : Bool
  field : Option CellField
  phoneticDepth : ℕ
  captureInlineText : Bool

namespace CellBuilder

def new (coordinate : CellCoordinate) (cellType : CellType) (rowHidden : Bool) : CellBuilder :=
  ⟨coordinate, cellType, rowHidden, none, none, [], false, none, 0, false⟩

section

variable (builder : CellBuilder)

/-- A start tag in a cell. -/
def onStart (element : XmlElement) : Except DocxError CellBuilder :=
  if isSpreadsheetElement element "v" then do
    rejectIf (builder.value.isSome ∨ builder.field.isSome) .requiredPartInvalid
    return { builder with value := some [], field := some .value }
  else if isSpreadsheetElement element "f" then do
    rejectIf (builder.formula.isSome ∨ builder.field.isSome) .requiredPartInvalid
    return { builder with formula := some [], field := some .formula }
  else if isSpreadsheetElement element "is" then do
    rejectIf builder.sawInline .requiredPartInvalid
    return { builder with sawInline := true }
  else if isSpreadsheetElement element "rPh" then
    if builder.sawInline then do
      rejectIf (2 ^ 64 ≤ builder.phoneticDepth + 1) .xmlLimitExceeded
      return { builder with phoneticDepth := builder.phoneticDepth + 1 }
    else
      .ok builder
  else if isSpreadsheetElement element "t" ∧ builder.sawInline ∧ builder.phoneticDepth = 0 then
    .ok { builder with captureInlineText := true }
  else
    .ok builder

/-- An empty element in a cell. -/
def onEmpty (element : XmlElement) : Except DocxError CellBuilder :=
  if isSpreadsheetElement element "v" then do
    rejectIf builder.value.isSome .requiredPartInvalid
    return { builder with value := some [] }
  else if isSpreadsheetElement element "f" then do
    rejectIf builder.formula.isSome .requiredPartInvalid
    return { builder with formula := some [] }
  else if isSpreadsheetElement element "is" then do
    rejectIf builder.sawInline .requiredPartInvalid
    return { builder with sawInline := true }
  else
    .ok builder

def onText (text : Text) : Except DocxError CellBuilder :=
  if builder.captureInlineText then
    .ok { builder with inline := builder.inline ++ text }
  else
    match builder.field with
    | none => .ok builder
    | some .value =>
      match builder.value with
      | some value => .ok { builder with value := some (value ++ text) }
      | none => .error .requiredPartInvalid
    | some .formula =>
      match builder.formula with
      | some formula => .ok { builder with formula := some (formula ++ text) }
      | none => .error .requiredPartInvalid

/-- An end tag in a cell. -/
def onStop (nameSpace : Option Text) (localName : Text) : Except DocxError CellBuilder :=
  if isSpreadsheetName nameSpace localName "v" ∨ isSpreadsheetName nameSpace localName "f" then
    .ok { builder with field := none }
  else if isSpreadsheetName nameSpace localName "t" then
    .ok { builder with captureInlineText := false }
  else if isSpreadsheetName nameSpace localName "rPh" then
    if builder.sawInline then do
      rejectIf (builder.phoneticDepth = 0) .requiredPartInvalid
      return { builder with phoneticDepth := builder.phoneticDepth - 1 }
    else
      .ok builder
  else
    .ok builder

def onEvent : XmlEvent → Except DocxError CellBuilder
  | .start element => builder.onStart element
  | .empty element => builder.onEmpty element
  | .text text => builder.onText text
  | .stop nameSpace localName => builder.onStop nameSpace localName

end

end CellBuilder

/-- What is not empty. -/
def nonempty (value : Option Text) : Option Text :=
  value.filter (· ≠ [])

def resolveCellValue (builder : CellBuilder) (sharedStrings : Option (List Text)) :
    Except DocxError (Option Text) :=
  match builder.cellType with
  | .inline => .ok (nonempty (if builder.sawInline then some builder.inline else none))
  | .shared =>
    match nonempty builder.value with
    | none => .ok none
    | some value => do
      let index ← parseUsize value
      match sharedStrings with
      | none => .error .requiredPartInvalid
      | some table =>
        match table[index]? with
        | some value => .ok (nonempty (some value))
        | none => .error .requiredPartInvalid
  | .number | .string | .boolean | .error | .date => .ok (nonempty builder.value)

/-! ## §5 Worksheets -/

structure CellRecord where
  (value formula : Option Text)
  hidden : Bool
  comment : Option Text

/-- The cells that hold something, row by row. -/
structure WorksheetModel where
  cells : Std.ExtTreeMap CellCoordinate CellRecord CellCoordinate.order

structure RowState where
  row : ℕ
  hidden : Bool
  lastColumn : ℕ

structure WorksheetState where
  model : WorksheetModel
  lastRow : ℕ
  row : Option RowState
  cell : Option CellBuilder
  columnRanges : List (ℕ × ℕ)
  processedCells : ℕ

namespace WorksheetState

/-- The hidden range a `col` element declares. -/
def hiddenRange (element : XmlElement) : Except DocxError (Option (ℕ × ℕ)) := do
  let hidden ← hiddenAttribute element
  if hidden = false then
    return none
  else
    let min ← requiredAttribute element "min"
    let min ← parseGridNumber min maxExcelColumns
    let max ← requiredAttribute element "max"
    let max ← parseGridNumber max maxExcelColumns
    rejectIf (max < min) .requiredPartInvalid
    return some (min, max)

def addColumns (state : WorksheetState) (element : XmlElement) :
    Except DocxError WorksheetState := do
  let hidden ← hiddenAttribute element
  rejectIf (hidden ∧ state.columnRanges.length = maxColumnRangesPerSheet) .packageLimitExceeded
  match ← hiddenRange element with
  | none => return state
  | some range => return { state with columnRanges := state.columnRanges ++ [range] }

/-- The number of the next row. -/
def rowNumber (lastRow : ℕ) (element : XmlElement) : Except DocxError ℕ := do
  let reference ← parsedAttribute element "r" fun value => parseGridNumber value maxExcelRows
  let number := reference.getD (min (lastRow + 1) (2 ^ 32 - 1))
  rejectIf (number = 0 ∨ number ≤ lastRow) .requiredPartInvalid
  return number

def startRow (state : WorksheetState) (element : XmlElement) :
    Except DocxError WorksheetState := do
  rejectIf (state.row.isSome ∨ state.cell.isSome) .requiredPartInvalid
  let number ← rowNumber state.lastRow element
  let hidden ← hiddenAttribute element
  return { state with row := some ⟨number, hidden, 0⟩, lastRow := number }

def emptyRow (state : WorksheetState) (element : XmlElement) :
    Except DocxError WorksheetState := do
  let number ← rowNumber state.lastRow element
  return { state with lastRow := number }

/-- Where the next cell of a row stands. -/
def nextCoordinate (row : RowState) (element : XmlElement) : Except DocxError CellCoordinate := do
  match optionalAttribute element "r" with
  | some reference =>
    let coordinate ← parseA1 reference
    rejectIf (coordinate.row ≠ row.row ∨ coordinate.column ≤ row.lastColumn) .requiredPartInvalid
    return coordinate
  | none =>
    rejectIf (maxExcelColumns < row.lastColumn + 1) .requiredPartInvalid
    return ⟨row.row, row.lastColumn + 1⟩

section

variable (state : WorksheetState) (element : XmlElement)

/-- The row, and where its next cell stands. -/
def placeCell : Except DocxError (RowState × CellCoordinate × WorksheetState) :=
  match state.row with
  | none => .error .requiredPartInvalid
  | some row => do
    rejectIf (maxCellRecords < state.processedCells + 1) .packageLimitExceeded
    let coordinate ← nextCoordinate row element
    return (row, coordinate, { state with
      processedCells := state.processedCells + 1
      row := some { row with lastColumn := coordinate.column } })

def startCell :
    Except DocxError WorksheetState := do
  rejectIf state.cell.isSome .requiredPartInvalid
  let (row, coordinate, state) ← state.placeCell element
  let cellType ← parseCellType (optionalAttribute element "t")
  return { state with cell := some (.new coordinate cellType row.hidden) }

def emptyCell :
    Except DocxError WorksheetState := do
  let (_, _, state) ← state.placeCell element
  return state

end

/-- What a cell that ends is recorded with. -/
def finishCell (builder : CellBuilder) (sharedStrings : Option (List Text)) :
    Except DocxError (Option CellRecord) := do
  rejectIf (builder.field.isSome ∨ builder.phoneticDepth ≠ 0) .requiredPartInvalid
  let value ← resolveCellValue builder sharedStrings
  let formula := nonempty builder.formula
  if value.isSome ∨ formula.isSome then
    return some ⟨value, formula, builder.rowHidden, none⟩
  else
    return none

def stopCell (sharedStrings : Option (List Text)) (state : WorksheetState) :
    Except DocxError WorksheetState :=
  match state.cell with
  | none => .error .requiredPartInvalid
  | some builder => do
    match ← finishCell builder sharedStrings with
    | none => return { state with cell := none }
    | some record =>
      rejectIf (state.model.cells.contains builder.coordinate) .requiredPartInvalid
      return { state with
        cell := none
        model := ⟨state.model.cells.insert builder.coordinate record⟩ }

def stopRow (state : WorksheetState) : Except DocxError WorksheetState := do
  rejectIf (state.cell.isSome ∨ state.row.isNone) .requiredPartInvalid
  return { state with row := none }

/-- Whether an event may only occur in a cell. -/
def needsCell : XmlEvent → Bool
  | .start element | .empty element =>
    ["v", "f", "is"].any (isSpreadsheetElement element)
  | .text _ => false
  | .stop nameSpace localName => ["v", "f", "rPh"].any (isSpreadsheetName nameSpace localName)

/-- An event that belongs to a cell. -/
def inCell (state : WorksheetState) (event : XmlEvent) : Except DocxError WorksheetState :=
  match state.cell with
  | some builder => do
    let builder ← builder.onEvent event
    return { state with cell := some builder }
  | none => if needsCell event then .error .requiredPartInvalid else .ok state

def onEvent (sharedStrings : Option (List Text)) (state : WorksheetState) :
    XmlEvent → Except DocxError WorksheetState
  | .start element =>
    if isSpreadsheetElement element "col" then state.addColumns element
    else if isSpreadsheetElement element "row" then state.startRow element
    else if isSpreadsheetElement element "c" then state.startCell element
    else state.inCell (.start element)
  | .empty element =>
    if isSpreadsheetElement element "col" then state.addColumns element
    else if isSpreadsheetElement element "row" then state.emptyRow element
    else if isSpreadsheetElement element "c" then state.emptyCell element
    else state.inCell (.empty element)
  | .text text => state.inCell (.text text)
  | .stop nameSpace localName =>
    if isSpreadsheetName nameSpace localName "c" then state.stopCell sharedStrings
    else if isSpreadsheetName nameSpace localName "row" then state.stopRow
    else state.inCell (.stop nameSpace localName)

end WorksheetState

/-- Whether a column lies in one of the ranges. -/
def inRanges (ranges : List (ℕ × ℕ)) (column : ℕ) : Bool :=
  ranges.any fun range => range.1 ≤ column ∧ column ≤ range.2

def hideColumns (ranges : List (ℕ × ℕ)) (coordinate : CellCoordinate) (record : CellRecord) :
    CellRecord :=
  if inRanges ranges coordinate.column then { record with hidden := true } else record

def parseWorksheet (bytes : Bytes) (sharedStrings : Option (List Text)) (budget : R.Budget) :
    Except ExcelError (WorksheetModel × R.Budget) := do
  let ((rootChecked, state), budget) ← ofPackage (parseXmlEvents R bytes budget
    (false, (⟨⟨∅⟩, 0, none, none, [], 0⟩ : WorksheetState))
    (afterRoot "worksheet" (WorksheetState.onEvent sharedStrings)))
  rejectIf (rootChecked = false ∨ state.row.isSome ∨ state.cell.isSome) .requiredPartInvalid
  return (⟨state.model.cells.map (hideColumns state.columnRanges)⟩, budget)

/-! ## §6 Comments -/

structure PendingComment where
  coordinate : CellCoordinate
  text : Text
  inText : Bool
  phoneticDepth : ℕ
  captureText : Bool

structure CommentsState where
  comments : Std.ExtTreeMap CellCoordinate Text CellCoordinate.order
  retainedBytes : ℕ
  pending : Option PendingComment

namespace CommentsState

/-- Changes the comment that is read, which has to be there. -/
def withPending (state : CommentsState)
    (change : PendingComment → Except DocxError PendingComment) : Except DocxError CommentsState :=
  match state.pending with
  | none => .error .requiredPartInvalid
  | some pending => do
    let pending ← change pending
    return { state with pending := some pending }

def stopComment (state : CommentsState) : Except DocxError CommentsState :=
  match state.pending with
  | none => .error .requiredPartInvalid
  | some comment => do
    rejectIf (comment.phoneticDepth ≠ 0) .requiredPartInvalid
    let retained ← charge state.retainedBytes (utf8Len comment.text) maxCommentBytes
    rejectIf (state.comments.contains comment.coordinate) .requiredPartInvalid
    return ⟨state.comments.insert comment.coordinate comment.text, retained, none⟩

def onEvent (state : CommentsState) : XmlEvent → Except DocxError CommentsState
  | .start element =>
    if isSpreadsheetElement element "comment" then do
      rejectIf (state.pending.isSome ∨ state.comments.size = maxComments) .packageLimitExceeded
      let reference ← requiredAttribute element "ref"
      let coordinate ← parseA1 reference
      return { state with pending := some ⟨coordinate, [], false, 0, false⟩ }
    else if isSpreadsheetElement element "text" then
      state.withPending fun comment => .ok { comment with inText := true }
    else if isSpreadsheetElement element "rPh" then
      state.withPending fun comment =>
        if comment.inText then do
          rejectIf (2 ^ 64 ≤ comment.phoneticDepth + 1) .xmlLimitExceeded
          return { comment with phoneticDepth := comment.phoneticDepth + 1 }
        else
          .ok comment
    else if isSpreadsheetElement element "t" then
      state.withPending fun comment =>
        if comment.inText ∧ comment.phoneticDepth = 0 then .ok { comment with captureText := true }
        else .ok comment
    else
      .ok state
  | .empty _ => .ok state
  | .text text =>
    .ok { state with
      pending := state.pending.map fun comment =>
        if comment.captureText then { comment with text := comment.text ++ text } else comment }
  | .stop nameSpace localName =>
    if isSpreadsheetName nameSpace localName "t" then
      state.withPending fun comment => .ok { comment with captureText := false }
    else if isSpreadsheetName nameSpace localName "rPh" then
      state.withPending fun comment => do
        rejectIf (comment.phoneticDepth = 0) .requiredPartInvalid
        return { comment with phoneticDepth := comment.phoneticDepth - 1 }
    else if isSpreadsheetName nameSpace localName "text" then
      state.withPending fun comment => .ok { comment with inText := false }
    else if isSpreadsheetName nameSpace localName "comment" then
      state.stopComment
    else
      .ok state

end CommentsState

def parseComments (bytes : Bytes) (budget : R.Budget) :
    Except ExcelError (Std.ExtTreeMap CellCoordinate Text CellCoordinate.order × R.Budget) := do
  let ((rootChecked, state), budget) ← ofPackage (parseXmlEvents R bytes budget
    (false, (⟨∅, 0, none⟩ : CommentsState)) (afterRoot "comments" CommentsState.onEvent))
  rejectIf (rootChecked = false ∨ state.pending.isSome) .requiredPartInvalid
  return (state.comments, budget)

/-- Gives one cell its comment. A cell that holds nothing else is as hidden as its sheet. -/
def mergeComment (sheetHidden : Bool) (worksheet : WorksheetModel)
    (comment : CellCoordinate × Text) : WorksheetModel :=
  let record := (worksheet.cells[comment.1]?).getD ⟨none, none, sheetHidden, none⟩
  ⟨worksheet.cells.insert comment.1 { record with comment := nonempty (some comment.2) }⟩

def mergeComments (worksheet : WorksheetModel)
    (comments : Std.ExtTreeMap CellCoordinate Text CellCoordinate.order) (sheetHidden : Bool) :
    WorksheetModel :=
  comments.toList.foldl (mergeComment sheetHidden) worksheet

end Kwiry.Excel
