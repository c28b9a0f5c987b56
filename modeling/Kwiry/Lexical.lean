import Kwiry.Foundations.Pattern
import Kwiry.Foundations.Unicode

/-!
# Lexical Normalization

`lexical.rs`: folding, the normalized exact form, and the technical identifiers of a text.

Offsets into a text count characters where the source counts bytes of the same boundary.
-/

namespace Kwiry

open Foundations

/-- Longest normalized exact value, in UTF-8 bytes. -/
def maxNormalizedExactBytes : ℕ := 4096

variable (T : CharTables)

/-- Whitespace collapsed to single spaces. -/
def collapseWhitespace (value : Text) : Text :=
  joinWith [' '] (splitWhitespace value)

/-- The normalized exact form of a value; absent when empty or over the bound. -/
def normalizeRaw (value : Text) : Option Text :=
  let normalized := T.fold (collapseWhitespace value)
  if normalized.isEmpty || utf8Len normalized > maxNormalizedExactBytes then
    none
  else
    some normalized

/-! ## §1 The identifier pattern -/

/-- A letter of either case. -/
def isAsciiLetterOf (lower : Char) (c : Char) : Bool :=
  c == lower || c == lower.toUpper

/-- The case-insensitive reading of the class of lower-case ASCII letters and digits. Two characters
outside ASCII fold into it: the long s and the Kelvin sign. -/
def isIdentifierStart (c : Char) : Bool :=
  c.isAlphanum || c == '\u017F' || c == '\u212A'

/-- The class an identifier continues with. -/
def isIdentifierContinue (c : Char) : Bool :=
  isIdentifierStart c || c == '.' || c == '_' || c == '/' || c == ':' || c == '+' || c == '-'

/-- A literal, read case-insensitively. -/
def literal : Text → Pattern
  | [] => .rep (fun _ => false) 0 none
  | [c] => .cls (isAsciiLetterOf c)
  | c :: rest => .seq (.cls (isAsciiLetterOf c)) (literal rest)

/-- `cve(?:-\d{4}-\d+| \d{4} \d+)` -/
def cvePattern : Pattern :=
  let digits := Pattern.rep T.isDecimalDigit
  let numbered (separator : Char) : Pattern :=
    .seq (.cls (· == separator))
      (.seq (digits 4 (some 4)) (.seq (.cls (· == separator)) (digits 1 none)))
  .seq (literal ['c', 'v', 'e']) (.alt (numbered '-') (numbered ' '))

/-- `rfc(?:[- ]?\d+)` -/
def rfcPattern : Pattern :=
  .seq (literal ['r', 'f', 'c'])
    (.seq (.rep (fun c => c == '-' || c == ' ') 0 (some 1)) (.rep T.isDecimalDigit 1 none))

/-- `[a-z0-9][a-z0-9._/:+\-]{2,}` -/
def compoundPattern : Pattern :=
  .seq (.cls isIdentifierStart) (.rep isIdentifierContinue 2 none)

/-- The technical identifier pattern, between word boundaries. -/
def identifierPattern : Pattern :=
  .seq (.boundary T.isWord)
    (.seq (.alt (cvePattern T) (.alt (rfcPattern T) compoundPattern)) (.boundary T.isWord))

/-! ## §2 Technical identifiers -/

/-- The separators that let a candidate without letters count. -/
def isIdentifierSeparator (c : Char) : Bool :=
  c == '-' || c == '_' || c == '.' || c == '/' || c == ':' || c == '+' || c == ' '

/-- Whether a matched candidate is taken as an identifier. -/
def isTechnicalCandidate (candidate : Text) : Bool :=
  candidate.any Char.isDigit &&
    (candidate.any T.isAlphabetic || candidate.any isIdentifierSeparator)

/-- The characters of a span. -/
def spanText (source : Text) (span : ℕ × ℕ) : Text :=
  (source.drop span.1).take span.2

/-- The identifier spans of a text, each with its normalized form. -/
def technicalIdentifierSpans (source : Text) : List ((ℕ × ℕ) × Text) :=
  ((identifierPattern T).spans source).filterMap fun span =>
    let candidate := spanText source span
    if isTechnicalCandidate T candidate then
      (normalizeRaw T candidate).map fun identifier => (span, identifier)
    else
      none

/-- First occurrences, in order. -/
def dedupFirst {α : Type} [DecidableEq α] : List α → List α
  | [] => []
  | a :: rest => a :: (dedupFirst rest).filter (· ≠ a)

/-- The distinct identifiers of a text, in order of first occurrence. -/
def technicalIdentifiers (source : Text) : List Text :=
  dedupFirst ((technicalIdentifierSpans T source).map (·.2))

end Kwiry
