import Kwiry.Foundations.Sorting
import Kwiry.Frontmatter
import Kwiry.Pdf.Objects

/-!
# Page Layout

The positioned runs of a page become its text. Runs are gathered into lines by their baselines, and
regions of lines are cut at corridors that no run crosses and at wide gaps between lines, until a
region is a block or a table. Every separator is inferred from the geometry.

A region is the list of its items. Coordinates are compared by `f64`'s order and sorted by its
total order, and nothing else is known of them.
-/

namespace Kwiry.Pdf.Layout

open Foundations

/-! ## §1 Coordinates -/

/-- The arithmetic of coordinates, with the order they are sorted by and a number beyond all. -/
class Coordinates (F : Type) extends Float64 F where
  totalCmp : F → F → Ordering
  infinity : F

section Comparisons

variable {F : Type} [Coordinates F]

def le (a b : F) : Bool := Float64.le a b

def lt (a b : F) : Bool := Float64.le a b && !Float64.le b a

def eq (a b : F) : Bool := Float64.le a b && Float64.le b a

/-- A decimal literal of the source. -/
def ratio (n d : ℤ) : F := lit n / lit d

def axisTangent : F := ratio 175 10000

def spaceClassWidth : F := lit 260

def minSpaceAdvance : F := ratio 1 10

def gapSeparates : F := ratio 45 100

def gapJoins : F := ratio 10 100

def widthUncertainty : F := ratio 25 100

def uncertaintyCap : F := lit 4

def lineTolerance : F := ratio 30 100

def scriptSizeRatio : F := ratio 75 100

def scriptTolerance : F := ratio 60 100

def paragraphLeading : F := ratio 135 100

def paragraphSizeRatio : F := ratio 120 100

def bandCutLeading : F := ratio 16 10

def corridorSpaceFactor : F := ratio 15 10

def corridorSizeFactor : F := ratio 75 100

def minCorridorWidth : F := lit 1

def tableRowCoincidence : F := ratio 60 100

def tableCorridorRatio : F := ratio 5 10

def tablePairCorridorRatio : F := lit 1

end Comparisons

def clipOnlyRenderMode : ℤ := 7

def minCorridorBands : ℕ := 4

def maxColumnChildren : ℕ := 64

def tableMinColumns : ℕ := 2

def maxCutDepth : ℕ := 6

/-! ## §2 Items -/

/-- A run reduced to an interval on its baseline, a size, its text, and how much of the interval was
measured. -/
structure Item (F : Type) where
  (x0 x1 y size : F)
  /-- Inferred advance of a space at this size. -/
  space : F
  /-- Uncertainty of `x1`. -/
  slack : F
  text : Text
  raised : Bool
  deriving DecidableEq

structure Line (F : Type) where
  members : List (Item F)
  /-- Baseline of the largest item. -/
  (y size x0 x1 : F)
  deriving DecidableEq

/-- The children of a region, and the corridors between them. -/
structure Columns (F : Type) where
  children : List (List (Item F))
  corridors : List (F × F)
  deriving DecidableEq

/-- Characters that advance a full em. -/
def isWide (c : Char) : Bool :=
  let n := c.toNat
  [(0x1100, 0x115f), (0x2e80, 0x303e), (0x3041, 0x33ff), (0x3400, 0x4dbf), (0x4e00, 0x9fff),
    (0xa000, 0xa4cf), (0xac00, 0xd7a3), (0xf900, 0xfaff), (0xfe30, 0xfe4f), (0xff00, 0xff60),
    (0xffe0, 0xffe6), (0x20000, 0x2fffd), (0x30000, 0x3fffd)].any fun range =>
      range.1 ≤ n && n ≤ range.2

section Layout

variable {F : Type} [Coordinates F]

def classWidth (c : Char) : F :=
  if c = ' ' ∨ c = '\u00a0' then spaceClassWidth
  else if c ∈ "WM@%".toList then lit 900
  else if c ∈ "wm".toList then lit 720
  else if c ∈ "iljItfr'`.,;:!|()[]\x7b\x7d-".toList then lit 300
  else if 0x300 ≤ c.toNat ∧ c.toNat ≤ 0x36f then lit 300
  else if c.isUpper then lit 720
  else if isWide c then lit 1000
  else lit 500

/-- The width of a text from the classes of its characters. -/
def estimatedWidth (text : Text) (size : F) : F :=
  (text.map classWidth).foldl (· + ·) (lit 0) / lit 1000 * size

/-- Whether a run's glyphs advance to the right, along the baseline. -/
def isUpright (direction : F × F) : Bool :=
  (eq direction.1 (lit 0) && eq direction.2 (lit 0)) ||
    (lt (lit 0) direction.1 && le (Float64.abs direction.2) (axisTangent * direction.1))

/-- Whether a run is kept: it has a text that is painted, at a finite place. -/
def isKept (run : TextRun F) : Bool :=
  run.text ≠ [] && run.renderMode ≠ clipOnlyRenderMode &&
    ([run.origin.1, run.origin.2, run.endpoint.1, run.endpoint.2].all Float64.isFinite &&
      Float64.isFinite run.fontSize)

/-- Whether a run has a place in a left-to-right reading order. -/
def isOrdered (run : TextRun F) : Bool :=
  !(run.vertical || !(Float64.isFinite run.advanceDirection.1 &&
    Float64.isFinite run.advanceDirection.2) || !isUpright run.advanceDirection)

def item (run : TextRun F) : Item F :=
  let size := Float64.abs run.fontSize
  let width :=
    if run.geometryExact then run.endpoint.1 - run.origin.1 else estimatedWidth run.text size
  { x0 := run.origin.1
    x1 := run.origin.1 + width
    y := run.origin.2
    size := size
    space := Float64.max (spaceClassWidth / lit 1000 * size) minSpaceAdvance
    slack := if run.geometryExact then lit 0 else widthUncertainty * width
    text := run.text
    raised := !eq run.rise (lit 0) }

/-- The items of a page, and the texts that are placed after them. -/
def collect (page : PageGeometry F) : List (Item F) × List Text :=
  (((page.runs.filter isKept).filter isOrdered).map item,
    ((page.runs.filter isKept).filter (!isOrdered ·)).map TextRun.text)

/-! ## §3 Lines -/

/-- The middle of the finite values, or the mean of the two in the middle. -/
def median (values : List F) : F :=
  let sorted := sortBy Coordinates.totalCmp (values.filter Float64.isFinite)
  let middle := sorted.length / 2
  if sorted = [] then lit 0
  else if sorted.length % 2 = 0 then
    (sorted.getD (middle - 1) (lit 0) + sorted.getD middle (lit 0)) / lit 2
  else sorted.getD middle (lit 0)

/-- On the baseline of a line, or a superscript or subscript of it. -/
def sharesBaseline (line : Line F) (item : Item F) : Bool :=
  let scale := Float64.max line.size item.size
  let delta := Float64.abs (item.y - line.y)
  let smaller := Float64.min line.size item.size
  le delta (lineTolerance * scale) ||
    (le smaller (scriptSizeRatio * scale) && le delta (scriptTolerance * scale))

def Line.start (item : Item F) : Line F :=
  ⟨[item], item.y, item.size, item.x0, item.x1⟩

def Line.extend (line : Line F) (item : Item F) : Line F where
  members := line.members ++ [item]
  y := if lt line.size item.size then item.y else line.y
  size := if lt line.size item.size then item.size else line.size
  x0 := Float64.min line.x0 item.x0
  x1 := Float64.max line.x1 item.x1

/-- An item joins the last line or starts another. -/
def placeItem (lines : List (Line F)) (item : Item F) : List (Line F) :=
  match lines.getLast? with
  | some line =>
    if sharesBaseline line item then lines.dropLast ++ [line.extend item]
    else lines ++ [.start item]
  | none => lines ++ [.start item]

def byBaseline (left right : Item F) : Ordering :=
  (Coordinates.totalCmp left.y right.y).then (Coordinates.totalCmp left.x0 right.x0)

def byLeft (left right : Item F) : Ordering :=
  Coordinates.totalCmp left.x0 right.x0

def Line.sorted (line : Line F) : Line F := { line with members := sortBy byLeft line.members }

def assembleLines (region : List (Item F)) : List (Line F) :=
  ((sortBy byBaseline region).foldl placeItem []).map Line.sorted

def isScript (item : Item F) (line : Line F) : Bool :=
  item.raised || lt item.size (scriptSizeRatio * line.size)

/-- Whether a space is put between two runs of a line. -/
def separated (previous next : Item F) (line : Line F) : Bool :=
  -- the producer drew a space
  if (previous.text.getLast?.any Foundations.isWhitespace) ||
      (next.text.head?.any Foundations.isWhitespace) then false
  -- a superscript stands where the word before it ends
  else if isScript previous line != isScript next line then true
  else
    let space := Float64.max previous.space next.space
    let slack := Float64.min previous.slack (uncertaintyCap * space)
    let gap := next.x0 - previous.x1
    !lt gap (Float64.max (gapJoins * space) (gapSeparates * space - slack))

/-- The texts that follow a run on a line. -/
def renderAfter (line : Line F) : Item F → List (Item F) → Text
  | _, [] => []
  | previous, next :: rest =>
    (if separated previous next line then [' '] else []) ++ next.text ++ renderAfter line next rest

def renderMembers (members : List (Item F)) (line : Line F) : Text :=
  match members with
  | [] => []
  | first :: rest => first.text ++ renderAfter line first rest

/-! ## §4 Columns and bands -/

/-- The bands between intervals that are wide enough, from where the intervals reach so far. -/
def corridorsFrom (minimum : F) : F → List (F × F) → List (F × F)
  | _, [] => []
  | reach, (x0, x1) :: rest =>
    if le minimum (x0 - reach) then
      (reach, x0) :: corridorsFrom minimum (Float64.max reach x1) rest
    else corridorsFrom minimum (Float64.max reach x1) rest

/-- How many corridors end before an offset. -/
def corridorsBefore (corridors : List (F × F)) (x0 : F) : ℕ :=
  (corridors.filter fun corridor => le corridor.2 x0).length

def minimumCorridor (region : List (Item F)) : F :=
  let space := median (region.map Item.space)
  let size := median (region.map Item.size)
  let slack := Float64.min (median (region.map Item.slack)) (uncertaintyCap * space)
  Float64.max (Float64.max (corridorSpaceFactor * space) (corridorSizeFactor * size) +
    lit 2 * slack) minCorridorWidth

/-- Vertical bands inside a region that no run crosses, and what is between them. -/
def columns (region : List (Item F)) (bands : ℕ) : Option (Columns F) :=
  if bands < minCorridorBands ∨ region.length < 2 then none
  else
    match sortBy (fun left right => Coordinates.totalCmp left.1 right.1)
        (region.map fun item => (item.x0, item.x1)) with
    | [] => none
    | first :: rest =>
      let corridors := corridorsFrom (minimumCorridor region) first.2 rest
      if corridors = [] ∨ maxColumnChildren ≤ corridors.length then none
      else
        let children := (List.range (corridors.length + 1)).map fun child =>
          region.filter fun item => corridorsBefore corridors item.x0 = child
        if children.any List.isEmpty then none else some ⟨children, corridors⟩

/-- Which child an offset belongs to. -/
def Columns.childOf (columns : Columns F) (x0 : F) : ℕ :=
  min (corridorsBefore columns.corridors x0) (columns.children.length - 1)

/-- Whether a region's rows are read across its columns. -/
def isTable (lines : List (Line F)) (columns : Columns F) : Bool :=
  if columns.children.length < tableMinColumns then false
  else
    let coincident := (lines.filter fun line =>
      2 ≤ (line.members.map fun item => columns.childOf item.x0).dedup.length).length
    if lt (lit coincident) (tableRowCoincidence * lit lines.length : F) then false
    else
      let corridor := median (columns.corridors.map fun c => c.2 - c.1)
      let content := median (columns.children.map fun child =>
        (child.map Item.x1).foldl Float64.max (-Coordinates.infinity) -
          (child.map Item.x0).foldl Float64.min Coordinates.infinity)
      let ratio := if columns.children.length = 2 then tablePairCorridorRatio
        else tableCorridorRatio
      le (ratio * content) corridor

/-- How far each line is below the one before it. -/
def deltas (lines : List (Line F)) : List F :=
  List.zipWith (fun upper lower => lower.y - upper.y) lines lines.tail

/-- The items above and below the widest gap between lines, if it is wide enough. -/
def horizontalSplit (lines : List (Line F)) : Option (List (Item F) × List (Item F)) :=
  if lines.length < 2 then none
  else
    let leading := median (deltas lines)
    if le leading (lit 0) then none
    else
      match maxBy (fun left right => Coordinates.totalCmp left.1 right.1) (deltas lines).zipIdx with
      | none => none
      | some (widest, at_) =>
        if lt widest (bandCutLeading * leading) then none
        else some ((lines.take (at_ + 1)).flatMap Line.members,
          (lines.drop (at_ + 1)).flatMap Line.members)

/-! ## §5 Writing -/

def startsParagraph (previous line : Line F) (leading left : F) : Bool :=
  let smaller := Float64.min previous.size line.size
  (lt (lit 0) leading && le (paragraphLeading * leading) (line.y - previous.y)) ||
    (lt (lit 0) smaller &&
      le paragraphSizeRatio (Float64.max previous.size line.size / smaller)) ||
    (lt (lit 0) line.size && le line.size (line.x0 - left))

/-- The lines that follow a line of a block. -/
def renderLinesAfter (leading left : F) : Line F → List (Line F) → Text
  | _, [] => []
  | previous, line :: rest =>
    (if startsParagraph previous line leading left then ['\n', '\n'] else ['\n']) ++
      renderMembers line.members line ++ renderLinesAfter leading left line rest

def renderBlock (lines : List (Line F)) : Text :=
  let leading := median (deltas lines)
  let left := (lines.map Line.x0).foldl Float64.min Coordinates.infinity
  match lines with
  | [] => []
  | first :: rest => renderMembers first.members first ++ renderLinesAfter leading left first rest

/-- The cells of a row. -/
def tableCells (columns : Columns F) (line : Line F) : List Text :=
  (List.range columns.children.length).map fun child =>
    renderMembers (line.members.filter fun item => columns.childOf item.x0 = child) line

/-- A row, without the empty cells at its end. -/
def tableRow (columns : Columns F) (line : Line F) : Text :=
  joinWith ['\t'] (((tableCells columns line).reverse.dropWhile (· = [])).reverse)

def renderTable (lines : List (Line F)) (columns : Columns F) : Text :=
  joinWith ['\n'] (lines.map (tableRow columns))

end Layout

/-! ## §6 Normalization -/

/-- A line without its line feed and the carriage return before it. -/
def withoutLineEnd (line : Text) : Text :=
  if line.getLast? = some '\n' then
    if line.dropLast.getLast? = some '\r' then line.dropLast.dropLast else line.dropLast
  else line

def lines (t : Text) : List Text := (linesInclusive t).map withoutLineEnd

/-- Repeated spaces become one; `spacing` is whether the last character was a space. -/
def collapse (spacing : Bool) : Text → Text
  | [] => []
  | c :: rest =>
    if c = ' ' ∨ c = '\u00a0' then
      if spacing then collapse true rest else ' ' :: collapse true rest
    else c :: collapse false rest

def normalizeLine (line : Text) : Text := trim (collapse false line)

/-- Without an empty line after an empty line. -/
def capBlanks : List Text → List Text → List Text
  | out, [] => out
  | out, line :: rest =>
    if line = [] ∧ out.getLast? = some [] then capBlanks out rest
    else capBlanks (out ++ [line]) rest

def normalizedLines (t : Text) : List Text :=
  (((capBlanks [] ((lines t).map normalizeLine)).dropWhile (· = [])).reverse.dropWhile
    (· = [])).reverse

def normalize (t : Text) : Text := joinWith ['\n'] (normalizedLines t)

/-! ## §7 Pages -/

section

variable {F : Type} [Coordinates F]

/-- The blocks of a region; the number is the depth that is left. -/
def cut : ℕ → List (Item F) → List Text
  | 0, region => [renderBlock (assembleLines region)]
  | depth + 1, region =>
    let lines := assembleLines region
    if lines.length ≤ 1 then [renderBlock lines]
    else
      match columns region lines.length with
      | some columns =>
        if isTable lines columns then [renderTable lines columns]
        else columns.children.flatMap (cut depth)
      | none =>
        match horizontalSplit lines with
        | some (upper, lower) => cut depth upper ++ cut depth lower
        | none => [renderBlock lines]

def composePage (page : PageGeometry F) : PageText :=
  let (items, unordered) := collect page
  let blocks := (if items = [] then [] else cut maxCutDepth items) ++
    (if unordered = [] then [] else [joinWith ['\n'] unordered])
  ⟨normalize (joinWith ['\n', '\n'] blocks), unordered.length⟩

end

end Kwiry.Pdf.Layout
