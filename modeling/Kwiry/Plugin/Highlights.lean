import Kwiry.Foundations.CodeUnits
import Kwiry.Foundations.Occurrences
import Kwiry.Foundations.Unicode
import Kwiry.Plugin.Pending

/-!
# Highlights of a Hit

The excerpt that the plugin makes of a hit: a window of the text around the first occurrence of a
term of the query, with the occurrences in the window marked. Text is compared when it is folded,
character by character, and a map tells from which unit of the text each folded character came. The
path of headings is empty here, so a section is the whole body.
-/

namespace Kwiry.Plugin.Highlights

open Foundations

/-! ## §1 Characters -/

structure ScriptTables extends CharTables where
  /-- General category L. -/
  (isLetter isCased isCaseIgnorable : Char → Bool)
  /-- ASCII has no marks and decomposes to itself. -/
  ascii : ∀ c, c.toNat < 128 →
    decompose c = [c] ∧ isCombiningMark c = false ∧ toLowercase c = [c.toLower]

/-- `/\s/u` -/
def isSpace (unit : UInt16) : Bool :=
  (isWhitespace (Char.ofNat unit.toNat) ∧ unit ≠ 0x85) ∨ unit = 0xfeff

def trimStart (text : JsString) : JsString := text.dropWhile isSpace

def trimEnd (text : JsString) : JsString := (text.reverse.dropWhile isSpace).reverse

def isBlank (text : JsString) : Bool := text.all isSpace

/-- A string of ASCII characters. -/
def js (text : String) : JsString := text.toList.map fun c => c.toNat.toUInt16

section Folding

variable (T : ScriptTables)

def CodePoint.is (p : Char → Bool) : CodePoint → Bool
  | .scalar c => p c
  | .surrogate _ => false

def decompose : CodePoint → List CodePoint
  | .scalar c => (T.decompose c).map .scalar
  | .surrogate unit => [.surrogate unit]

/-- Normalization form D without its marks: what canonical ordering moves is dropped. -/
def withoutMarks (points : List CodePoint) : List CodePoint :=
  (points.flatMap (decompose T)).filter fun point => !CodePoint.is T.isCombiningMark point

/-- A cased letter comes next, behind characters that case ignores. -/
def meetsCased (points : List CodePoint) : Bool :=
  (points.dropWhile (CodePoint.is T.isCaseIgnorable)).head?.any (CodePoint.is T.isCased)

/-- The lower case of a character between others; a sigma at the end of a word is final. -/
def toLowerCasePoint (before rest : List CodePoint) : CodePoint → List CodePoint
  | .surrogate unit => [.surrogate unit]
  | .scalar c =>
    if c = 'Σ' ∧ meetsCased T before ∧ !meetsCased T rest then [.scalar 'ς']
    else (T.toLowercase c).map .scalar

/-- `before` has the characters before these, the last one first. -/
def toLowerCase (before : List CodePoint) : List CodePoint → List CodePoint
  | [] => []
  | point :: rest => toLowerCasePoint T before rest point ++ toLowerCase (point :: before) rest

def foldText (value : JsString) : JsString :=
  unitsOf (toLowerCase T [] (withoutMarks T (codePoints value)))

/-! ## §2 The terms of a query -/

/-- Each set of column names in braces becomes a blank. -/
def withoutColumnSets (inside : Bool) : JsString → JsString
  | [] => []
  | unit :: rest =>
    if inside then
      if unit = 0x7d then 0x20 :: withoutColumnSets false rest else withoutColumnSets true rest
    else if unit = 0x7b ∧ 0x7d ∈ rest then withoutColumnSets true rest
    else unit :: withoutColumnSets false rest

structure QueryToken where
  text : JsString
  quoted : Bool

inductive Scan where
  | between
  | word (text : JsString)
  | phrase (text : JsString)

def tokenizeFrom : Scan → JsString → List QueryToken
  | .between, [] => []
  | .word text, [] => [⟨text, false⟩]
  | .phrase text, [] => [⟨text, true⟩]
  | .between, unit :: rest =>
    if unit = 0x22 then tokenizeFrom (.phrase []) rest
    else if isSpace unit then tokenizeFrom .between rest
    else tokenizeFrom (.word [unit]) rest
  | .word text, unit :: rest =>
    if unit = 0x22 then ⟨text, false⟩ :: tokenizeFrom (.phrase []) rest
    else if isSpace unit then ⟨text, false⟩ :: tokenizeFrom .between rest
    else tokenizeFrom (.word (text ++ [unit])) rest
  | .phrase text, unit :: rest =>
    if unit = 0x22 then ⟨text, true⟩ :: tokenizeFrom .between rest
    else tokenizeFrom (.phrase (text ++ [unit])) rest

def tokenizeQuery (query : JsString) : List QueryToken :=
  tokenizeFrom .between query

def ftsOperators : List JsString := ["AND", "OR", "NOT", "NEAR"].map js

def maxHighlightTerms : ℕ := 32

/-- `[\p{L}\p{N}]` -/
def isTermCharacter (character : JsString) : Bool :=
  CodePoint.is (fun c => T.isLetter c || T.isNumeric c) (codePointOf character)

/-- What is left after `^[\p{L}_][\p{L}\p{N}_]*:`. -/
def afterField : List JsString → Option (List JsString)
  | [] => none
  | first :: rest =>
    if CodePoint.is T.isLetter (codePointOf first) ∨ first = js "_" then
      match rest.dropWhile fun next => isTermCharacter T next ∨ next = js "_" with
      | [] => none
      | next :: rest => if next = js ":" then some rest else none
    else none

/-- At most as many prefixes as there are characters. -/
def stripFieldPrefix : ℕ → List JsString → List JsString
  | 0, token => token
  | fuel + 1, token =>
    match afterField T token with
    | none => token
    | some rest => stripFieldPrefix fuel rest

/-- The pieces of a token, as their characters. -/
def tokenPieces (token : QueryToken) : List (List JsString) :=
  if token.text ∈ ftsOperators ∧ !token.quoted then []
  else
    let body := characters token.text
    (if token.quoted then body else stripFieldPrefix T body.length body).splitOnP
      fun character => !isTermCharacter T character

def addTerm (terms : List JsString) (piece : List JsString) : List JsString :=
  let folded := foldText T piece.flatten
  if piece = [] ∨ folded = [] ∨ folded ∈ terms ∨ maxHighlightTerms ≤ terms.length then terms
  else terms ++ [folded]

def extractHighlightTerms (query : JsString) : List JsString :=
  ((tokenizeQuery (withoutColumnSets false query)).flatMap (tokenPieces T)).foldl (addTerm T) []

/-! ## §3 Folded text and its map -/

structure FoldedText where
  folded : JsString
  /-- for each folded code point, where the character begins that it came from -/
  map : List ℕ

/-- The folded code points of a character; ASCII is folded at once. -/
def foldCharacter (character : JsString) : List JsString :=
  match character with
  | [unit] =>
    if unit < 0x80 then [[if 0x41 ≤ unit ∧ unit ≤ 0x5a then unit + 0x20 else unit]]
    else characters (foldText T character)
  | _ => characters (foldText T character)

def foldFrom (index : ℕ) : List JsString → List (JsString × ℕ)
  | [] => []
  | character :: rest =>
    (foldCharacter T character).map (·, index) ++ foldFrom (index + character.length) rest

def foldWithMap (value : JsString) : FoldedText :=
  let pieces := foldFrom T 0 (characters value)
  ⟨pieces.flatMap Prod.fst, pieces.map Prod.snd⟩

def sourceEnd (map : List ℕ) (foldedEnd length : ℕ) : ℕ :=
  map[foldedEnd]?.getD length

end Folding

def maxMatches : ℕ := 256

/-- A longer match at the same place is better. -/
def firstMatch (folded : JsString) (terms : List JsString) : Option Span :=
  terms.foldl (fun best term =>
    match indexOf term folded 0, best with
    | none, _ => best
    | some place, none => some ⟨place, place + term.length⟩
    | some place, some found =>
      if place < found.start ∨ place = found.start ∧ found.stop - found.start < term.length then
        some ⟨place, place + term.length⟩
      else best) none

/-- The matches of a term, one after the other; there are never more than the maximum. -/
def termMatches (folded term : JsString) : ℕ → ℕ → List Span → List Span
  | 0, _, found => found
  | fuel + 1, from_, found =>
    match indexOf term folded from_ with
    | none => found
    | some place =>
      let found := found ++ [⟨place, place + term.length⟩]
      if maxMatches ≤ found.length then found
      else termMatches folded term fuel (place + term.length) found

def allMatches (folded : JsString) (terms : List JsString) : List Span :=
  terms.foldl (fun found term =>
    if maxMatches ≤ found.length then found else termMatches folded term maxMatches 0 found) []

def compareMatches (left right : Span) : Ordering :=
  (compare left.start right.start).then (compare right.stop left.stop)

def findMatches (folded : JsString) (terms : List JsString) : List Span :=
  mergeSpans (sortBy compareMatches (allMatches folded terms))

/-! ## §4 The window -/

def excerptWindowCharacters : ℕ := 240
def excerptLeadCharacters : ℕ := 80
def maxHydratedExcerptCharacters : ℕ := 512
def maxAnchorScanCharacters : ℕ := 256 * 1024
def boundarySlack : ℕ := 40
def anchorScanWindow : ℕ := 8 * 1024
def anchorScanOverlap : ℕ := 256
def frontmatterScanCharacters : ℕ := 64 * 1024

/-- `slice` of a string. -/
def slice (text : JsString) (start stop : ℕ) : JsString := (text.take stop).drop start

/-- The end of a closing fence, or the beginning of the text where there is none. -/
def afterFence (text : JsString) (limit : ℕ) : ℕ → ℕ → ℕ
  | 0, _ => 0
  | fuel + 1, cursor =>
    if limit ≤ cursor then 0
    else
      let breakAt := indexOf [0x0a] text cursor
      let fence := trimEnd (slice text cursor (breakAt.getD text.length))
      if fence = js "---" ∨ fence = js "..." then (breakAt.map (· + 1)).getD text.length
      else match breakAt with
        | none => 0
        | some place => afterFence text limit fuel (place + 1)

def bodyStart (text : JsString) : ℕ :=
  if ¬ js "---" <+: text then 0
  else match indexOf [0x0a] text 0 with
    | none => 0
    | some opening =>
      if trimEnd (trimStart (slice text 3 opening)) ≠ [] then 0
      else afterFence text (min text.length frontmatterScanCharacters) text.length (opening + 1)

def isAscii (text : JsString) : Bool := text.all (· < 0x80)

def asciiLowerCase (unit : UInt16) : UInt16 :=
  if 0x41 ≤ unit ∧ unit ≤ 0x5a then unit + 0x20 else unit

section Excerpts

variable (T : ScriptTables)

/-- The first match in a chunk, in the places of the text. -/
def matchIn (chunk : JsString) (terms : List JsString) (from_ : ℕ) : Option Span :=
  if isAscii chunk then
    (firstMatch (chunk.map asciiLowerCase) terms).map fun found =>
      ⟨from_ + found.start, from_ + found.stop⟩
  else
    let fold := foldWithMap T chunk
    (firstMatch fold.folded terms).map fun found =>
      ⟨from_ + fold.map[found.start]?.getD 0, from_ + sourceEnd fold.map found.stop chunk.length⟩

/-- Chunks that overlap are scanned one after the other; each begins after the one before. -/
def findAnchorFrom (body : JsString) (terms : List JsString) (limit : ℕ) :
    ℕ → ℕ → Option Span
  | 0, _ => none
  | fuel + 1, from_ =>
    if limit ≤ from_ then none
    else
      let full := min limit (from_ + anchorScanWindow)
      let stop :=
        if full < limit ∧ body[full - 1]?.any isHighSurrogate then full - 1 else full
      match matchIn T (slice body from_ stop) terms from_ with
      | some found => some found
      | none =>
        if limit ≤ stop then none
        else
          let next := max (from_ + 1) (stop - anchorScanOverlap)
          findAnchorFrom body terms limit fuel
            (if body[next]?.any isLowSurrogate then next - 1 else next)

def findAnchor (body : JsString) (terms : List JsString) : Option Span :=
  if terms = [] then none
  else
    let limit := min body.length maxAnchorScanCharacters
    findAnchorFrom T body terms limit limit 0

/-- The first place after a blank, from a place to a limit. -/
def nextBoundary (text : JsString) (from_ limit : ℕ) : ℕ :=
  match (List.range' from_ (limit - from_)).find? fun index => text[index]?.any isSpace with
  | none => from_
  | some index => index + ((slice text index limit).takeWhile isSpace).length

/-- The last place before a blank, from a place back to a limit. -/
def previousBoundary (text : JsString) (from_ limit : ℕ) : ℕ :=
  ((List.range' limit (from_ - limit)).reverse.find? fun index =>
    text[index]?.any isSpace).getD from_

def locateWindow (text : JsString) (anchor anchorEnd : ℕ) : Span :=
  let lead := anchor - excerptLeadCharacters
  let start :=
    if 0 < lead then nextBoundary text lead (min anchor (lead + boundarySlack)) else lead
  let full := min text.length (start + excerptWindowCharacters)
  let stop := if full < anchorEnd then min text.length anchorEnd else full
  ⟨start, if stop < text.length then
      previousBoundary text stop (max anchorEnd (stop - boundarySlack))
    else stop⟩

/-! ## §5 Segments -/

structure ExcerptSegment where
  text : JsString
  highlighted : Bool
  deriving DecidableEq

/-- The markers that are reserved become replacement characters. -/
def sanitizeExcerptText (value : JsString) : JsString :=
  value.map fun unit => if unit = 0xe000 ∨ unit = 0xe001 then 0xfffd else unit

/-- The pieces between the matches and the matches, from a place on. -/
def segmentsFrom (text : JsString) (map : List ℕ) (cursor : ℕ) :
    List Span → List ExcerptSegment
  | [] => if cursor < text.length then [⟨text.drop cursor, false⟩] else []
  | found :: rest =>
    let start := map[found.start]?.getD text.length
    let stop := sourceEnd map found.stop text.length
    if start < cursor then segmentsFrom text map cursor rest
    else (if cursor < start then [⟨slice text cursor start, false⟩] else []) ++
      ⟨slice text start stop, true⟩ :: segmentsFrom text map stop rest

def markedSegments (text : JsString) (terms : List JsString) : List ExcerptSegment :=
  let fold := foldWithMap T text
  segmentsFrom text fold.map 0 (findMatches fold.folded terms)

/-- The segments up to the cap, and whether it cut. -/
def boundSegments (total : ℕ) : List ExcerptSegment → List ExcerptSegment × Bool
  | [] => ([], false)
  | segment :: rest =>
    if segment.text = [] then boundSegments total rest
    else if maxHydratedExcerptCharacters ≤ total then ([], true)
    else if maxHydratedExcerptCharacters - total < segment.text.length then
      ([⟨segment.text.take (maxHydratedExcerptCharacters - total), segment.highlighted⟩], true)
    else
      let (bounded, clipped) := boundSegments (total + segment.text.length) rest
      (segment :: bounded, clipped)

def trimPlain (trim : JsString → JsString) (segment : ExcerptSegment) : ExcerptSegment :=
  if segment.highlighted then segment else { segment with text := trim segment.text }

/-- Outer blanks go where they are not highlighted, and segments that are empty then. -/
def trimSegments (bounded : List ExcerptSegment) : List ExcerptSegment :=
  ((bounded.modifyHead (trimPlain trimStart)).modifyLast (trimPlain trimEnd)).filter
    fun segment => segment.text ≠ []

def ellipsis : ExcerptSegment := ⟨[0x2026], false⟩

def finalizeSegments (segments : List ExcerptSegment) (truncatedStart truncatedEnd : Bool) :
    List ExcerptSegment :=
  let (bounded, clipped) := boundSegments 0 segments
  let trimmed := trimSegments bounded
  if trimmed = [] then []
  else (if truncatedStart then [ellipsis] else []) ++ trimmed ++
    (if truncatedEnd ∨ clipped then [ellipsis] else [])

/-- The part of the text an excerpt is made of. -/
def scopedText (text : JsString) : JsString := text.drop (bodyStart text)

/-- The window around the first match, or at the top. -/
def excerptWindow (body : JsString) (terms : List JsString) : Span :=
  let anchor := findAnchor T body terms
  locateWindow body ((anchor.map Span.start).getD 0) ((anchor.map Span.stop).getD 0)

/-- What is shown of a text. -/
def shownText (body : JsString) (terms : List JsString) : JsString :=
  let window := excerptWindow T body terms
  sanitizeExcerptText (slice body window.start window.stop)

def hydrateExcerpt (text : JsString) (terms : List JsString) : List ExcerptSegment :=
  let body := scopedText text
  if isBlank body then []
  else
    let window := excerptWindow T body terms
    finalizeSegments (markedSegments T (shownText T body terms) terms) (0 < window.start)
      (window.stop < body.length)

end Excerpts

end Kwiry.Plugin.Highlights
