import Kwiry.Model

/-!
# PDF Objects

What the PDF reader is written over: objects as the parser hands them out, the positioned text
runs of a page, and the windows in which a content stream is decoded.

Floating point enters as a type with the operations the reader uses, so nothing below
depends on how a coordinate is rounded. The parser itself is outside the repository: a
document is what the reader asks of it.
-/

namespace Kwiry.Pdf

open Foundations

/-! ## §1 Budgets -/

def maxContentWindowBytes : ℕ := 64 * 1024

def maxOperandsPerOperation : ℕ := 262144

def maxFontWidthEntries : ℕ := 65536

/-- The largest `u32`, where ordinals saturate. -/
def maxU32 : ℕ := 2 ^ 32 - 1

/-! ## §2 Numbers and objects -/

/-- The arithmetic of a coordinate type: what the reader uses of `f64`. -/
class Float64 (F : Type) extends Add F, Sub F, Mul F, Div F, Neg F where
  ofInt : ℤ → F
  /-- `as i64`. -/
  toInt : F → ℤ
  isFinite : F → Bool
  le : F → F → Bool
  min : F → F → F
  max : F → F → F
  abs : F → F

/-- The number of an indirect object. -/
abbrev ObjectId := ℕ

/-- A parsed object. A real is kept as the reader widens it. -/
inductive Object (F : Type) where
  | null
  | boolean (value : Bool)
  | integer (value : ℤ)
  | real (value : F)
  | name (bytes : Bytes)
  | string (bytes : Bytes)
  | array (items : List (Object F))
  | dictionary (entries : List (Bytes × Object F))
  | stream (entries : List (Bytes × Object F)) (content : Bytes)
  | reference (id : ObjectId)

/-- A dictionary's entries by key. -/
abbrev Dictionary (F : Type) := List (Bytes × Object F)

variable {F : Type}

namespace Object

def asArray : Object F → Option (List (Object F))
  | .array items => some items
  | _ => none

/-- The number an operand stands for. -/
def number [Float64 F] : Object F → Option F
  | .integer value => some (Float64.ofInt value)
  | .real value => some value
  | _ => none

end Object

/-- What the font reader asks of a parsed document. -/
structure Document (F : Type) where
  /-- An object with its references followed. -/
  dereference : Object F → Option (Object F)

/-- A dictionary's entry with its references followed. -/
def Document.getDeref (document : Document F) (dictionary : Dictionary F) (key : Bytes) :
    Option (Object F) :=
  (dictionary.lookup key).bind document.dereference

/-- A key or name written in ASCII. -/
def ascii (key : String) : Bytes := utf8 key.toList

section Numbers

variable [Float64 F]

/-- An integer literal of the source. -/
def lit (n : ℤ) : F := Float64.ofInt n

end Numbers

/-! ## §3 Pages -/

/-- A positioned text run, as the layout reads it. -/
structure TextRun (F : Type) where
  text : Text
  (origin endpoint advanceDirection : F × F)
  (fontSize rise : F)
  renderMode : ℤ
  (vertical geometryExact : Bool)

/-- What the layout reads of a page. -/
structure PageGeometry (F : Type) where
  runs : List (TextRun F)

/-- One page's composed text, and how many runs had no place in its order. -/
structure PageText where
  text : Text
  unordered : ℕ

/-- A notice's code and message. -/
structure ExtractionNotice where
  (code message : String)

/-! ## §4 Windows -/

def isWhitespace (byte : UInt8) : Bool :=
  byte ∈ [0, 9, 10, 12, 13, 32]

/-- How one window of a content stream ends. -/
inductive Window where
  | boundary (stop : ℕ)
  | finish (stop : ℕ)
  | unparsable (stop : ℕ)
  | oversize (stop : ℕ)
  deriving DecidableEq

def Window.stop : Window → ℕ
  | .boundary stop | .finish stop | .unparsable stop | .oversize stop => stop

def Window.isOversize : Window → Bool
  | .oversize _ => true
  | _ => false

/-- The window of a stream that starts at an offset, at least a budget long. -/
abbrev Splitter := Bytes → ℕ → ℕ → Window

end Kwiry.Pdf
