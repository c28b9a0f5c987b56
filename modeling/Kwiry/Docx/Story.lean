import Kwiry.Docx.Opc
import Kwiry.Foundations.Decimal
import Mathlib.Data.List.DropRight

/-!
# Stories

`docx/wordprocessing.rs`: the parser of a story. It walks the events of a part once, and keeps the
paragraph and the table row it is in, the depth of deletions, and three flags: whether the run is
hidden, whether the paragraph is, and the role of the text that is being read.

A string of the source is a `Passage` here, a text with the positions of the events it was put
together from. The positions decide nothing. They record where text comes from, for `StoryRoles`.
-/

namespace Kwiry.Docx

open Foundations

def maxExtractedTextBytes : ℕ := 10 * 1024 * 1024
def maxOutlineLevel : ℕ := 8
def maxExtractedSectionsPerSource : ℕ := 100000
def maxExtractedHeadingBytesPerSource : ℕ := maxFileBytes

/-! ## §1 Elements -/

/-- The names the parser knows. -/
inductive StoryTag where
  | p | pStyle | rStyle | outlineLvl | r | vanish | webHidden | del | moveFrom | t | instrText
  | delText | tab | br | cr | fldSimple | tbl | tr | tc | headerReference | footerReference
  | altChunk | subDoc | other
  deriving DecidableEq

def storyTags : List (Text × StoryTag) :=
  [("p".toList, .p), ("pStyle".toList, .pStyle), ("rStyle".toList, .rStyle),
    ("outlineLvl".toList, .outlineLvl), ("r".toList, .r), ("vanish".toList, .vanish),
    ("webHidden".toList, .webHidden), ("del".toList, .del), ("moveFrom".toList, .moveFrom),
    ("t".toList, .t), ("instrText".toList, .instrText), ("delText".toList, .delText),
    ("tab".toList, .tab), ("br".toList, .br), ("cr".toList, .cr),
    ("fldSimple".toList, .fldSimple), ("tbl".toList, .tbl), ("tr".toList, .tr),
    ("tc".toList, .tc), ("headerReference".toList, .headerReference),
    ("footerReference".toList, .footerReference), ("altChunk".toList, .altChunk),
    ("subDoc".toList, .subDoc)]

def storyTag (localName : Text) : StoryTag :=
  (storyTags.lookup localName).getD .other

def isWordprocessing (nameSpace : Option Text) : Bool :=
  namespaceMatches nameSpace wordprocessingNamespaces

/-- The first attribute of a local name, under any prefix. -/
def attributeLocal (element : XmlElement) (localName : String) : Option Text :=
  (element.attributes.find? fun entry =>
    entry.1 = localName.toList ∨
      entry.1.rtakeWhile (· ≠ ':') = localName.toList).map Prod.snd

def onOffEnabled (element : XmlElement) : Bool :=
  !((attributeLocal element "val").map (List.map Char.toLower)).any
    (· ∈ ["0".toList, "false".toList, "off".toList, "no".toList])

def isAsciiWhitespace (c : Char) : Bool :=
  c = ' ' || c = '\t' || c = '\n' || c = '\x0c' || c = '\r'

/-- The level a name such as `Heading 2` stands for. No character outside ASCII has a lowercase form
that could be read as part of such a name. -/
def headingLevelFromName (value : Text) : Option ℕ := do
  let normalized := (value.filter fun c => !isAsciiWhitespace c && c ≠ '-').map Char.toLower
  let digits ← stripPrefix "heading".toList normalized
  let level ← parseUnsigned (2 ^ 64) digits
  if 1 ≤ level ∧ level ≤ 9 then some level else none

/-- The level of an `outlineLvl` element. -/
def outlineLevel (element : XmlElement) : Option ℕ := do
  let value ← attributeLocal element "val"
  let level ← parseUnsigned (2 ^ 64) value
  if level ≤ maxOutlineLevel then some (level + 1) else none

/-- What the styles part says: the heading levels of paragraph styles, and the styles that hide
their text. -/
structure Styles where
  headings : List (Text × ℕ)
  hidden : List Text

/-- Lines trimmed one by one, then the whole. -/
def normalizeFragment (value : Text) : Text :=
  trim (joinWith "\n".toList ((value.splitOn '\n').map trim))

/-! ## §2 Passages, paragraphs and rows -/

/-- A text, with the positions of the events it came from. -/
structure Passage where
  text : Text
  sources : List ℕ
  deriving DecidableEq

namespace Passage

def empty : Passage := ⟨[], []⟩

def append (passage other : Passage) : Passage :=
  ⟨passage.text ++ other.text, passage.sources ++ other.sources⟩

def concat (passages : List Passage) : Passage :=
  ⟨passages.flatMap text, passages.flatMap sources⟩

def join (sep : Text) (passages : List Passage) : Passage :=
  ⟨joinWith sep (passages.map text), passages.flatMap sources⟩

def normalize (passage : Passage) : Passage :=
  { passage with text := normalizeFragment passage.text }

end Passage

/-- The roles, in the order they are emitted. -/
def storyRoles : List ContentRole := [.primary, .supporting, .latent]

/-- Adjacent fragments of one role grow together. -/
def appendFragment (role : ContentRole) (passage : Passage) :
    List (ContentRole × Passage) → List (ContentRole × Passage)
  | [] => [(role, passage)]
  | [(lastRole, value)] =>
    if lastRole = role then [(lastRole, value.append passage)]
    else [(lastRole, value), (role, passage)]
  | first :: second :: rest => first :: appendFragment role passage (second :: rest)

structure Paragraph where
  fragments : List (ContentRole × Passage)
  style : Option Text
  outline : Option ℕ

namespace Paragraph

def empty : Paragraph := ⟨[], none, none⟩

def append (paragraph : Paragraph) (role : ContentRole) (passage : Passage) : Paragraph :=
  if passage.text = [] then paragraph
  else { paragraph with fragments := appendFragment role passage paragraph.fragments }

def byRole (paragraph : Paragraph) (role : ContentRole) : Passage :=
  .concat ((paragraph.fragments.filter (·.1 = role)).map Prod.snd)

end Paragraph

/-- The text of a cell by role. A role that has none has the empty text. -/
abbrev Cell := ContentRole → Passage

structure TableRow where
  cells : List Cell
  currentCell : Option Cell

namespace TableRow

def empty : TableRow := ⟨[], none⟩

def startCell (row : TableRow) : Except DocxError TableRow :=
  match row.currentCell with
  | some _ => .error .requiredPartInvalid
  | none => .ok { row with currentCell := some fun _ => .empty }

/-- A paragraph's text of a role, on a line of its own. -/
def addLine (value line : Passage) : Passage :=
  if line.text = [] then value
  else if value.text = [] then value.append line
  else ⟨value.text ++ '\n' :: line.text, value.sources ++ line.sources⟩

def pushParagraph (row : TableRow) (paragraph : Paragraph) : Except DocxError TableRow :=
  match row.currentCell with
  | none => .error .requiredPartInvalid
  | some cell => .ok { row with
      currentCell := some fun role => addLine (cell role) (paragraph.byRole role).normalize }

def endCell (row : TableRow) : Except DocxError TableRow :=
  match row.currentCell with
  | none => .error .requiredPartInvalid
  | some cell => .ok ⟨row.cells ++ [cell], none⟩

def render (row : TableRow) (role : ContentRole) : Passage :=
  .join "\t".toList (row.cells.map (· role))

end TableRow

/-! ## §3 Sections -/

structure SemanticSection where
  headingPath : List Text
  content : Passage
  role : ContentRole
  deriving DecidableEq

structure OutputBudget where
  (bytes sections headingBytes : ℕ)

namespace OutputBudget

def empty : OutputBudget := ⟨0, 0, 0⟩

/-- Charges a section that has text, and makes it. -/
def push (budget : OutputBudget) (headingStack : List (ℕ × Text)) (content : Passage)
    (role : ContentRole) : Except DocxError (OutputBudget × Option SemanticSection) :=
  if content.normalize.text = [] then .ok (budget, none)
  else do
    let bytes := budget.bytes + utf8Len content.normalize.text
    let headingBytes := budget.headingBytes + (headingStack.map (utf8Len ·.2)).sum
    rejectIf (maxExtractedTextBytes < bytes) .xmlLimitExceeded
    rejectIf (maxExtractedSectionsPerSource < budget.sections + 1) .xmlLimitExceeded
    rejectIf (maxExtractedHeadingBytesPerSource < headingBytes) .xmlLimitExceeded
    return (⟨bytes, budget.sections + 1, headingBytes⟩,
      some ⟨headingStack.map Prod.snd, content.normalize, role⟩)

end OutputBudget

inductive HeaderFooterKind where
  | header | footer

structure HeaderFooterReference where
  kind : HeaderFooterKind
  relationshipId : Text

/-- The elements that hold the stories of a part, when it has several. -/
inductive ContainerMode where
  | none
  | numeric (localName : Text)
  | comment

def containerName : ContainerMode → Option Text
  | .none => Option.none
  | .numeric localName => some localName
  | .comment => some "comment".toList

/-! ## §4 The parser -/

/-- The state of the parser. The containers met so far are kept once, in their order. -/
structure StoryParser where
  /-- How many events have been read. -/
  position : ℕ
  outputBudget : OutputBudget
  sections : List SemanticSection
  containerSections : List (Text × SemanticSection)
  containerId : Option Text
  containerOrder : List Text
  headerFooterReferences : List HeaderFooterReference
  headingStack : List (ℕ × Text)
  paragraph : Option Paragraph
  row : Option TableRow
  (tableDepth latentDepth : ℕ)
  (runHidden paragraphHidden : Bool)
  textRole : Option ContentRole
  unsupportedMarkup : Bool

namespace StoryParser

def new (outputBudget : OutputBudget) : StoryParser where
  position := 0
  outputBudget := outputBudget
  sections := []
  containerSections := []
  containerId := none
  containerOrder := []
  headerFooterReferences := []
  headingStack := []
  paragraph := none
  row := none
  tableDepth := 0
  latentDepth := 0
  runHidden := false
  paragraphHidden := false
  textRole := none
  unsupportedMarkup := false

def checkedSucc (depth : ℕ) : Except DocxError ℕ :=
  if depth + 1 < 2 ^ 64 then .ok (depth + 1) else .error .xmlLimitExceeded

def checkedPred (depth : ℕ) : Except DocxError ℕ :=
  if depth = 0 then .error .requiredPartInvalid else .ok (depth - 1)

variable (baseRole : ContentRole) (styles : Styles) (mode : ContainerMode)

def activeRole (parser : StoryParser) : ContentRole :=
  if parser.latentDepth ≠ 0 ∨ parser.runHidden ∨ parser.paragraphHidden then .latent else baseRole

/-- Appends what the present event says to the open paragraph. -/
def appendText (parser : StoryParser) (role : ContentRole) (text : Text) : StoryParser :=
  { parser with
    paragraph := parser.paragraph.map (·.append role ⟨text, [parser.position]⟩) }

def emit (parser : StoryParser) (content : Passage) (role : ContentRole) :
    Except DocxError StoryParser := do
  let (outputBudget, pushed) ← parser.outputBudget.push parser.headingStack content role
  match parser.containerId with
  | some id => return { parser with
      outputBudget := outputBudget
      containerSections := parser.containerSections ++ pushed.toList.map (id, ·) }
  | none => return { parser with
      outputBudget := outputBudget
      sections := parser.sections ++ pushed.toList }

/-- Emits a text of each role. -/
def emitAll (parser : StoryParser) (content : ContentRole → Passage) :
    Except DocxError StoryParser :=
  storyRoles.foldlM (fun parser role => parser.emit (content role) role) parser

def headingLevel (paragraph : Paragraph) : Option ℕ :=
  paragraph.outline <|> (paragraph.style.bind fun style => styles.headings.lookup style) <|>
    paragraph.style.bind headingLevelFromName

section

variable (parser : StoryParser)

/-- A heading takes the place of the headings of its level and below. -/
def enterHeading (paragraph : Paragraph) : StoryParser :=
  match headingLevel styles paragraph with
  | none => parser
  | some level =>
    let heading := (paragraph.byRole baseRole).normalize.text
    if heading = [] then parser
    else { parser with
      headingStack := parser.headingStack.rdropWhile (level ≤ ·.1) ++ [(level, heading)] }

def finishParagraph : Except DocxError StoryParser :=
  match parser.paragraph with
  | none => .error .requiredPartInvalid
  | some paragraph =>
    let parser := { parser with paragraph := none }.enterHeading baseRole styles paragraph
    if parser.tableDepth = 1 then
      match parser.row with
      | none => .error .requiredPartInvalid
      | some row => do
        let row ← row.pushParagraph paragraph
        return { parser with row := some row }
    else parser.emitAll paragraph.byRole

def finishRow : Except DocxError StoryParser :=
  match parser.row with
  | none => .error .requiredPartInvalid
  | some row => do
    rejectIf row.currentCell.isSome .requiredPartInvalid
    { parser with row := none }.emitAll row.render

/-- A container opens: its id is new, and no other is open. -/
def enterContainer (element : XmlElement) : Except DocxError StoryParser :=
  if containerName mode = some element.localName then do
    rejectIf parser.containerId.isSome .requiredPartInvalid
    match attributeLocal element "id" with
    | none => .error .requiredPartInvalid
    | some id =>
      rejectIf (id = [] ∨ id ∈ parser.containerOrder) .requiredPartInvalid
      return { parser with
        containerOrder := parser.containerOrder ++ [id]
        headingStack := []
        containerId := some id }
  else .ok parser

def leaveContainer (localName : Text) : Except DocxError StoryParser :=
  if containerName mode = some localName then do
    rejectIf parser.containerId.isNone .requiredPartInvalid
    return { parser with containerId := none }
  else .ok parser

def reference (kind : HeaderFooterKind) (element : XmlElement) : Except DocxError StoryParser :=
  match attributeLocal element "id" with
  | none => .error .requiredPartInvalid
  | some id => do
    rejectIf (id = []) .requiredPartInvalid
    return { parser with
      headerFooterReferences := parser.headerFooterReferences ++ [⟨kind, id⟩] }

/-- An element opens, by its name. -/
def enter (element : XmlElement) : Except DocxError StoryParser :=
  match storyTag element.localName with
  | .p => do
    rejectIf parser.paragraph.isSome .requiredPartInvalid
    return { parser with paragraphHidden := false, paragraph := some .empty }
  | .pStyle =>
    match parser.paragraph with
    | none => .ok parser
    | some paragraph =>
      let style := attributeLocal element "val"
      .ok { parser with
        paragraphHidden := style.any (· ∈ styles.hidden)
        paragraph := some { paragraph with style := style } }
  | .rStyle =>
    .ok { parser with
      runHidden := parser.runHidden || (attributeLocal element "val").any (· ∈ styles.hidden) }
  | .outlineLvl =>
    .ok { parser with
      paragraph := parser.paragraph.map ({ · with outline := outlineLevel element }) }
  | .r => .ok { parser with runHidden := false }
  | .vanish | .webHidden =>
    .ok { parser with runHidden := parser.runHidden || onOffEnabled element }
  | .del | .moveFrom => do
    let latentDepth ← checkedSucc parser.latentDepth
    return { parser with latentDepth := latentDepth }
  | .t => .ok { parser with textRole := some (parser.activeRole baseRole) }
  | .instrText | .delText => .ok { parser with textRole := some .latent }
  | .tab => .ok (parser.appendText (parser.activeRole baseRole) "\t".toList)
  | .br | .cr => .ok (parser.appendText (parser.activeRole baseRole) "\n".toList)
  | .fldSimple =>
    match attributeLocal element "instr" with
    | some instruction => .ok (parser.appendText .latent instruction)
    | none => .ok parser
  | .tbl => do
    let tableDepth ← checkedSucc parser.tableDepth
    return { parser with
      tableDepth := tableDepth
      unsupportedMarkup := parser.unsupportedMarkup || 1 < tableDepth }
  | .tr =>
    if parser.tableDepth = 1 then do
      rejectIf parser.row.isSome .requiredPartInvalid
      return { parser with row := some .empty }
    else .ok parser
  | .tc =>
    if parser.tableDepth = 1 then
      match parser.row with
      | none => .error .requiredPartInvalid
      | some row => do
        let row ← row.startCell
        return { parser with row := some row }
    else .ok parser
  | .headerReference => parser.reference .header element
  | .footerReference => parser.reference .footer element
  | .altChunk | .subDoc => .ok { parser with unsupportedMarkup := true }
  | .other => .ok parser

/-- An element closes, by its name. -/
def leave (localName : Text) : Except DocxError StoryParser :=
  match storyTag localName with
  | .p => parser.finishParagraph baseRole styles
  | .r => .ok { parser with runHidden := false }
  | .del | .moveFrom => do
    let latentDepth ← checkedPred parser.latentDepth
    return { parser with latentDepth := latentDepth }
  | .t | .instrText | .delText => .ok { parser with textRole := none }
  | .tc =>
    if parser.tableDepth = 1 then
      match parser.row with
      | none => .error .requiredPartInvalid
      | some row => do
        let row ← row.endCell
        return { parser with row := some row }
    else .ok parser
  | .tr => if parser.tableDepth = 1 then parser.finishRow else .ok parser
  | .tbl => do
    let tableDepth ← checkedPred parser.tableDepth
    return { parser with tableDepth := tableDepth }
  | _ => .ok parser

/-- The end of an element. -/
def stop (nameSpace : Option Text) (localName : Text) : Except DocxError StoryParser :=
  if isWordprocessing nameSpace then do
    let parser ← parser.leave baseRole styles localName
    parser.leaveContainer mode localName
  else .ok parser

/-- The start of an element, and its end when it is empty. -/
def start (element : XmlElement) (empty : Bool) : Except DocxError StoryParser :=
  if isWordprocessing element.nameSpace then do
    let parser ← parser.enterContainer mode element
    let parser ← parser.enter baseRole styles element
    if empty then parser.stop baseRole styles mode element.nameSpace element.localName
    else return parser
  else .ok parser

def onEvent : XmlEvent → Except DocxError StoryParser
  | .start element => parser.start baseRole styles mode element false
  | .empty element => parser.start baseRole styles mode element true
  | .stop nameSpace localName => parser.stop baseRole styles mode nameSpace localName
  | .text text => .ok <|
    match parser.textRole with
    | some role => parser.appendText role text
    | none => parser

/-- One event, counted. -/
def event (event : XmlEvent) : Except DocxError StoryParser := do
  let parser ← parser.onEvent baseRole styles mode event
  return { parser with position := parser.position + 1 }

/-- At the end of a part nothing is open that the parser counts. -/
def finish : Except DocxError StoryParser :=
  if parser.paragraph.isSome ∨ parser.row.isSome ∨ parser.containerId.isSome ∨
      parser.latentDepth ≠ 0 then
    .error .requiredPartInvalid
  else .ok parser

end

/-- The events of a part, and its end. -/
def parseEvents (outputBudget : OutputBudget) (events : List XmlEvent) :
    Except DocxError StoryParser := do
  let parser ← events.foldlM (event baseRole styles mode) (new outputBudget)
  parser.finish

/-- The sections of all stories of the part. -/
def emitted (parser : StoryParser) : List SemanticSection :=
  parser.sections ++ parser.containerSections.map Prod.snd

end StoryParser

end Kwiry.Docx
