import Mathlib.Data.List.DropRight
import Kwiry.Foundations.Scanners
import Kwiry.Pdf.Objects

/-!
# Splitting a Content Stream

A page's content stream is decoded in windows, each of which ends one byte past a complete
operation. The scanner that finds these ends mirrors the grammar of the parser: it reads operands,
strings, dictionaries and inline images by their offsets only, and builds no objects. It counts the
objects of the operation it reads, nested ones included.

A position in the stream is what is left of the stream there.
-/

namespace Kwiry.Pdf.Split

open Foundations List Option

/-- The array and dictionary depth that is accepted. -/
def maxNestingDepth : ℕ := 100

/-- The nesting of parentheses that a literal string is accepted with. -/
def maxBracket : ℕ := 100

/-! ## §1 Space and comments -/

def isContentSpace (b : UInt8) : Bool := b ∈ [32, 9, 13, 10]

/-- Only these four bytes, not all whitespace. -/
def contentSpace (s : Bytes) : Bytes := s.dropWhile isContentSpace

def whitespace (s : Bytes) : Bytes := s.dropWhile isWhitespace

/-- Reads a word. -/
def tag (word : String) : Scanner UInt8 := fun s => s.dropPrefix? (ascii word)

def lineEnd : Scanner UInt8 := Scanner.firstOf [tag "\r\n", tag "\r", tag "\n"]

/-- A percent sign and all up to an end of line, which has to come. -/
def comment : Scanner UInt8 := fun s =>
  (tag "%" s).bind fun r => lineEnd (r.dropWhile fun b => b ≠ 13 && b ≠ 10)

def comments (s : Bytes) : Bytes := many length comment s

/-- Whitespace and a comment, when any of it is there. -/
def spaceRound : Scanner UInt8 := fun s =>
  let r := (comment (whitespace s)).getD (whitespace s)
  if r.length = s.length then none else some r

/-- Whitespace and comments, interleaved. -/
def space (s : Bytes) : Bytes := many length spaceRound s

/-! ## §2 Tokens -/

def isDigit (b : UInt8) : Bool := 48 ≤ b && b ≤ 57

def isHexDigit (b : UInt8) : Bool :=
  isDigit b || (65 ≤ b && b ≤ 70) || (97 ≤ b && b ≤ 102)

def isOctal (b : UInt8) : Bool := 48 ≤ b && b ≤ 55

/-- Neither whitespace nor a delimiter. -/
def isRegular (b : UInt8) : Bool :=
  !isWhitespace b && b ∉ ascii "()<>[]\x7b\x7d/%"

/-- ASCII letters and three signs. -/
def isOperatorByte (b : UInt8) : Bool :=
  (65 ≤ b && b ≤ 90) || (97 ≤ b && b ≤ 122) || b ∈ ascii "*'\""

/-- One or more bytes of a kind. -/
def oneOrMore (kind : UInt8 → Bool) : Scanner UInt8 := fun s =>
  let r := s.dropWhile kind
  if r.length < s.length then some r else none

def operator : Scanner UInt8 := oneOrMore isOperatorByte

def sign (s : Bytes) : Bytes := ((tag "+" s).or (tag "-" s)).getD s

def integer : Scanner UInt8 := fun s => oneOrMore isDigit (sign s)

/-- Digits with a point before, in or after them, or digits only. -/
def number : Scanner UInt8 := fun s =>
  let t := sign s
  let u := t.dropWhile isDigit
  let integral : Bool := u.length < t.length
  let fraction := (tag "." u).bind fun v =>
    let w := v.dropWhile isDigit
    if integral || w.length < v.length then some w else none
  fraction.or (if integral then some u else none)

/-- Two integers and `R`. -/
def reference : Scanner UInt8 := fun s =>
  (integer s).bind fun t => (integer (space t)).bind fun u => tag "R" (space u)

/-- A regular byte of a name; a `#` only leads two hexadecimal digits. -/
def nameByte : Scanner UInt8
  | [] => none
  | b :: r =>
    if b = 35 then
      match r with
      | c :: d :: r' => if isHexDigit c && isHexDigit d then some r' else none
      | _ => none
    else if isRegular b then some r else none

def name : Scanner UInt8 := fun s => (tag "/" s).map (many length nameByte)

/-- What follows a backslash: an end of line, up to three octal digits, or any byte. -/
def escape (s : Bytes) : Bytes :=
  match s with
  | [] => []
  | b :: r =>
    if b = 13 then (tag "\n" r).getD r
    else if isOctal b then s.drop ((s.take 3).takeWhile isOctal).length
    else r

/-- One byte of a literal string, with how many parentheses are open before it. -/
def literalRound : ℕ × Bytes → Round (ℕ × Bytes) (Option Bytes)
  | (0, s) => .done (some s)
  | (_ + 1, []) => .done none
  | (depth + 1, b :: r) =>
    if b = 92 then .again (depth + 1, escape r)
    else if b = 40 then
      if depth + 2 > maxBracket then .done none else .again (depth + 2, r)
    else if b = 41 then .again (depth, r)
    else .again (depth + 1, r)

def literalString : Scanner UInt8 := fun s =>
  (tag "(" s).bind fun r => run (·.2.length) literalRound (1, r)

/-- One digit of a hexadecimal string, or its end. -/
def hexRound (s : Bytes) : Round Bytes (Option Bytes) :=
  match whitespace s with
  | [] => .done none
  | b :: r => if b = 62 then .done (some r) else if isHexDigit b then .again r else .done none

def hexString : Scanner UInt8 := fun s => (tag "<" s).bind (run length hexRound)

/-- What stands for itself: words, references, numbers, names and literal strings. -/
def atoms (withReference : Bool) : List (Scanner UInt8) :=
  [tag "null", tag "true", tag "false"] ++ (if withReference then [reference] else []) ++
    [number, name, literalString]

/-! ## §3 Objects -/

/-- One member of an array, or its end. -/
def memberRound (object : Counting UInt8) :
    Bytes × ℕ → Round (Bytes × ℕ) (Option Bytes × ℕ)
  | ([], n) => .done (none, n)
  | (b :: r, n) =>
    if b = 93 then .done (some r, n)
    else match object (b :: r) n with
      | (some t, k) => .again (space t, k)
      | (none, k) => .done (none, k)

/-- One entry of a dictionary, or the word that closes it. -/
def entryRound (closing : String) (object : Counting UInt8) :
    Bytes × ℕ → Round (Bytes × ℕ) (Option Bytes × ℕ) := fun (s, n) =>
  match tag closing s with
  | some r => .done (some r, n)
  | none =>
    match name s with
    | none => .done (none, n)
    | some t =>
      match object (space t) n with
      | (some u, k) => .again (space u, k)
      | (none, k) => .done (none, k)

/-- An array, where members are still accepted. -/
def array (member : Option (Counting UInt8)) : Counting UInt8 := fun s n =>
  match tag "[" s, member with
  | some r, some object => run (·.1.length) (memberRound object) (space r, n)
  | _, _ => (none, n)

def dictionary (member : Option (Counting UInt8)) : Counting UInt8 := fun s n =>
  match tag "<<" s, member with
  | some r, some object => run (·.1.length) (entryRound ">>" object) (space r, n)
  | _, _ => (none, n)

/-- An object is counted before it is read. -/
def objectWith (member : Option (Counting UInt8)) (withReference : Bool) : Counting UInt8 :=
  fun s n =>
    ((Scanner.plain (Scanner.firstOf (atoms withReference))).orElse <|
      (dictionary member).orElse <| (Scanner.plain hexString).orElse (array member)) s (n + 1)

/-- One direct object, with the depth that is left for what it contains. -/
def object : ℕ → Bool → Counting UInt8
  | 0, withReference => objectWith none withReference
  | depth + 1, withReference => objectWith (some (object depth true)) withReference

/-! ## §4 Operations -/

def isImageSpace (b : UInt8) : Bool := b ∈ [32, 10, 13]

/-- `EI` between spaces. -/
def endsImage : Bytes → Bool
  | a :: b :: c :: d :: _ => isImageSpace a && b = 69 && c = 73 && isImageSpace d
  | _ => false

/-- The bytes of an image, up to the `EI` that ends them. -/
def imageBytes : Scanner UInt8
  | [] => none
  | b :: r => if endsImage (b :: r) then some (r.drop 2) else imageBytes r

/-- `BI`, the entries of a dictionary, `ID`, the bytes of the image and `EI`. -/
def inlineImage : Counting UInt8 := fun s n =>
  match tag "BI" s with
  | none => (none, n)
  | some r =>
    match run (·.1.length) (entryRound "ID" (object maxNestingDepth true)) (contentSpace r, n) with
    | (none, k) => (none, k)
    | (some t, k) => ((imageBytes (contentSpace t)).map contentSpace, k)

def operand : Counting UInt8 := fun s n =>
  match object maxNestingDepth false s n with
  | (some r, k) => (some (contentSpace r), k)
  | (none, k) => (none, k)

def operandRound : Bytes × ℕ → Round (Bytes × ℕ) (Bytes × ℕ) := fun (s, n) =>
  match operand s n with
  | (some r, k) => .again (r, k)
  | (none, k) => .done (s, k)

/-- Operands, as many as there are. -/
def operands (s : Bytes) (n : ℕ) : Bytes × ℕ := run (·.1.length) operandRound (s, n)

/-- Operands and an operator. -/
def plainOperation : Counting UInt8 := fun s n =>
  let (t, k) := operands s n
  ((operator t).map contentSpace, k)

/-- An operation with the comments before it. An inline image that does not parse is read again as
operands and an operator. -/
def operation : Counting UInt8 := fun s n =>
  (Counting.orElse inlineImage plainOperation) (comments s) n

/-! ## §5 Windows -/

/-- One more operation of a window that started at an offset, and whose first operation is at
another. -/
def windowRound (content : Bytes) (start budget first : ℕ) (s : Bytes) : Round Bytes Window :=
  let before := content.length - s.length
  match operation s 0 with
  | (none, _) =>
    .done (if contentSpace (comments s) = [] then .finish content.length else .unparsable before)
  | (some r, operands) =>
    let stop := content.length - r.length
    if maxOperandsPerOperation < operands then
      -- what is before an oversize operation is a window of its own
      .done (if first < before then .boundary before else .oversize stop)
    else if content.length ≤ stop then .done (.finish content.length)
    else if budget ≤ stop - start then .done (.boundary stop)
    else .again r

instance : Inhabited Window := ⟨.unparsable 0⟩

/-- The window that starts at an offset: it ends with the first operation that makes it as long as
the budget. -/
def window : Splitter := fun content start budget =>
  let s := contentSpace (content.drop start)
  run length (windowRound content start budget (content.length - s.length)) s

/-- Where the next window starts, when there is one. -/
def continuation : Window → Option ℕ
  | .boundary stop | .oversize stop => some stop
  | _ => none

def windowsRound (content : Bytes) (budget : ℕ) :
    ℕ × List (ℕ × Window) → Round (ℕ × List (ℕ × Window)) (List (ℕ × Window)) :=
  fun (start, found) =>
    match continuation (window content start budget) with
    | some stop => .again (stop, found ++ [(start, window content start budget)])
    | none => .done (found ++ [(start, window content start budget)])

/-- The windows of a stream under their start offsets, each one where the last one ended. -/
def windows (content : Bytes) (budget : ℕ) : List (ℕ × Window) :=
  run (fun state => content.length - state.1) (windowsRound content budget) (0, [])

/-! ## §6 Scanners consume -/

variable {r s : Bytes}

lemma tag_eq_some {word : String} : tag word s = some r ↔ s = ascii word ++ r := by
  unfold tag
  rw [dropPrefix?_eq_some_iff]
  constructor
  · rintro ⟨front, rfl, hfront⟩
    rw [eq_of_beq hfront]
  · rintro rfl
    exact ⟨_, rfl, beq_self_eq_true _⟩

lemma tag_consuming {word : String} (h : 0 < (ascii word).length) :
    Scanner.Consuming (tag word) := by
  intro s r hread
  rw [tag_eq_some.mp hread]
  refine ⟨suffix_append _ _, ?_⟩
  rw [length_append]
  omega

lemma lineEnd_consuming : Scanner.Consuming lineEnd := by
  apply Scanner.Consuming.firstOf
  simp only [mem_cons, not_mem_nil, or_false, forall_eq_or_imp, forall_eq]
  exact ⟨tag_consuming (by decide), tag_consuming (by decide), tag_consuming (by decide)⟩

/-- A comment runs to the end of its line, which goes with it. -/
lemma comment_consuming : Scanner.Consuming comment := by
  intro s r hread
  obtain ⟨t, htag, hend⟩ := bind_eq_some_iff.mp hread
  have hline := lineEnd_consuming _ _ hend
  exact (hline.trans_suffix (dropWhile_suffix _)).trans_suffix
    (tag_consuming (by decide) s t htag).suffix

lemma comments_suffix (s : Bytes) : comments s <:+ s :=
  comment_consuming.many_suffix s

lemma contentSpace_suffix (s : Bytes) : contentSpace s <:+ s :=
  dropWhile_suffix _

lemma spaceRound_suffix (s : Bytes) : (comment (whitespace s)).getD (whitespace s) <:+ s := by
  have hwhite : whitespace s <:+ s := dropWhile_suffix _
  cases hread : comment (whitespace s) with
  | none => exact hwhite
  | some r => exact (comment_consuming _ _ hread).suffix.trans hwhite

/-- A round of space that takes nothing ends the loop. -/
lemma spaceRound_consuming : Scanner.Consuming spaceRound := by
  intro s r hread
  have hsuffix := spaceRound_suffix s
  simp only [spaceRound, ite_none_left_eq_some, some.injEq] at hread
  obtain ⟨hlength, rfl⟩ := hread
  exact ⟨hsuffix, Nat.lt_of_le_of_ne hsuffix.length_le hlength⟩

lemma space_suffix (s : Bytes) : space s <:+ s :=
  spaceRound_consuming.many_suffix s

lemma oneOrMore_consuming (kind : UInt8 → Bool) : Scanner.Consuming (oneOrMore kind) := by
  intro s r hread
  simp only [oneOrMore, ite_none_right_eq_some, some.injEq] at hread
  obtain ⟨hlength, rfl⟩ := hread
  exact ⟨dropWhile_suffix _, hlength⟩

lemma sign_suffix (s : Bytes) : sign s <:+ s := by
  unfold sign
  cases hread : (tag "+" s).or (tag "-" s) with
  | none => exact suffix_refl s
  | some r =>
    rcases or_eq_some_iff.mp hread with hplus | ⟨_, hminus⟩
    · exact (tag_consuming (by decide) s r hplus).suffix
    · exact (tag_consuming (by decide) s r hminus).suffix

lemma integer_consuming : Scanner.Consuming integer := by
  intro s r hread
  exact (oneOrMore_consuming isDigit _ r hread).trans_suffix (sign_suffix s)

lemma number_consuming : Scanner.Consuming number := by
  intro s r hread
  have hdigits : (sign s).dropWhile isDigit <:+ sign s := dropWhile_suffix _
  rcases or_eq_some_iff.mp hread with hfraction | ⟨_, hintegral⟩
  · obtain ⟨v, hpoint, hrest⟩ := bind_eq_some_iff.mp hfraction
    simp only [ite_none_right_eq_some, some.injEq] at hrest
    obtain ⟨_, rfl⟩ := hrest
    have hpoint := tag_consuming (by decide) _ v hpoint
    exact Within.trans_suffix (.of_suffix (dropWhile_suffix _) hpoint)
      (hdigits.trans (sign_suffix s))
  · simp only [decide_eq_true_eq, ite_none_right_eq_some, some.injEq] at hintegral
    obtain ⟨hlength, rfl⟩ := hintegral
    exact Within.trans_suffix ⟨hdigits, hlength⟩ (sign_suffix s)

lemma reference_consuming : Scanner.Consuming reference := by
  intro s r hread
  obtain ⟨t, hfirst, hread⟩ := bind_eq_some_iff.mp hread
  obtain ⟨u, hsecond, hword⟩ := bind_eq_some_iff.mp hread
  have hword := (tag_consuming (by decide) _ r hword).suffix.trans (space_suffix u)
  have hsecond := (integer_consuming _ u hsecond).suffix.trans (space_suffix t)
  exact .of_suffix (hword.trans hsecond) (integer_consuming s t hfirst)

lemma nameByte_consuming : Scanner.Consuming nameByte := by
  intro s r hread
  cases s with
  | nil => cases hread
  | cons b rest =>
    simp only [nameByte] at hread
    split at hread
    · split at hread
      · next c d after =>
        simp only [ite_none_right_eq_some, some.injEq] at hread
        obtain ⟨_, rfl⟩ := hread
        exact .of_suffix (suffix_append [c, d] after) (within_cons b _)
      · cases hread
    · simp only [ite_none_right_eq_some, some.injEq] at hread
      exact hread.2 ▸ within_cons b rest

lemma name_consuming : Scanner.Consuming name := by
  intro s r hread
  obtain ⟨t, htag, rfl⟩ := map_eq_some_iff.mp hread
  exact .of_suffix (nameByte_consuming.many_suffix t) (tag_consuming (by decide) s t htag)

lemma escape_suffix (s : Bytes) : escape s <:+ s := by
  cases s with
  | nil => exact suffix_refl _
  | cons b r =>
    have hcons := suffix_cons b r
    simp only [escape]
    split
    · cases hread : tag "\n" r with
      | none => exact hcons
      | some t => exact (tag_consuming (by decide) r t hread).suffix.trans hcons
    · split
      · exact drop_suffix _ _
      · exact hcons

/-- A round in a string takes a byte, or an escape of several. -/
lemma literalRound_again {state next : ℕ × Bytes} (h : literalRound state = .again next) :
    Within next.2 state.2 := by
  obtain ⟨depth, s⟩ := state
  cases depth with
  | zero => cases h
  | succ depth =>
    cases s with
    | nil => cases h
    | cons b r =>
      have hcons := within_cons b r
      simp only [literalRound] at h
      split at h
      · cases h
        exact .of_suffix (escape_suffix r) hcons
      · split at h
        · split at h
          · cases h
          · cases h
            exact hcons
        · split at h <;> cases h <;> exact hcons

/-- A string ends where its parentheses are balanced. -/
lemma literalRound_done {state : ℕ × Bytes} (h : literalRound state = .done (some r)) :
    state = (0, r) := by
  obtain ⟨depth, s⟩ := state
  cases depth with
  | zero => cases h; rfl
  | succ depth =>
    cases s with
    | nil => cases h
    | cons b rest =>
      simp only [literalRound] at h
      split at h
      · cases h
      · split at h
        · split at h <;> cases h
        · split at h <;> cases h

lemma literalRound_lowers : Lowers (·.2.length) literalRound :=
  fun _ _ h => (literalRound_again h).length_lt

lemma literalString_consuming : Scanner.Consuming literalString := by
  intro s r hread
  obtain ⟨t, htag, hread⟩ := bind_eq_some_iff.mp hread
  refine .of_suffix ?_ (tag_consuming (by decide) s t htag)
  refine run_induction (P := fun state => state.2 <:+ t)
    (Q := fun result => ∀ r, result = some r → r <:+ t) literalRound_lowers ?_ ?_
    (suffix_refl t) r hread
  · exact fun _ _ hsuffix hround => (literalRound_again hround).suffix.trans hsuffix
  · rintro state result hsuffix hround r rfl
    rw [literalRound_done hround] at hsuffix
    exact hsuffix

lemma hexRound_again {t : Bytes} (h : hexRound s = .again t) : Within t s := by
  unfold hexRound at h
  have hwhite : whitespace s <:+ s := dropWhile_suffix _
  cases hs : whitespace s with
  | nil => simp [hs] at h
  | cons b r =>
    rw [hs] at hwhite
    simp only [hs] at h
    split at h
    · cases h
    · split at h
      · cases h
        exact (within_cons b _).trans_suffix hwhite
      · cases h

lemma hexRound_done (h : hexRound s = .done (some r)) : Within r s := by
  unfold hexRound at h
  have hwhite : whitespace s <:+ s := dropWhile_suffix _
  cases hs : whitespace s with
  | nil => simp [hs] at h
  | cons b rest =>
    rw [hs] at hwhite
    simp only [hs] at h
    split at h
    · cases h
      exact (within_cons b _).trans_suffix hwhite
    · split at h <;> cases h

lemma hexString_consuming : Scanner.Consuming hexString := by
  intro s r hread
  obtain ⟨t, htag, hread⟩ := bind_eq_some_iff.mp hread
  refine .of_suffix ?_ (tag_consuming (by decide) s t htag)
  refine run_induction (P := fun u => u <:+ t) (Q := fun result => ∀ r, result = some r → r <:+ t)
    (fun _ _ h => (hexRound_again h).length_lt) ?_ ?_ (suffix_refl t) r hread
  · exact fun _ _ hsuffix hround => (hexRound_again hround).suffix.trans hsuffix
  · intro u result hsuffix hround r hresult
    exact (hexRound_done (hresult ▸ hround)).suffix.trans hsuffix

lemma atoms_consuming (withReference : Bool) :
    Scanner.Consuming (Scanner.firstOf (atoms withReference)) := by
  apply Scanner.Consuming.firstOf
  intro p hp
  simp only [atoms, mem_append, mem_cons, not_mem_nil, or_false] at hp
  obtain ((rfl | rfl | rfl) | href) | rfl | rfl | rfl := hp
  · exact tag_consuming (by decide)
  · exact tag_consuming (by decide)
  · exact tag_consuming (by decide)
  · split at href
    · rw [mem_singleton.mp href]
      exact reference_consuming
    · cases href
  · exact number_consuming
  · exact name_consuming
  · exact literalString_consuming

/-! ## §7 Objects and operations consume -/

variable {next state : Bytes × ℕ} {k n : ℕ}

section Objects

variable {object : Counting UInt8} {closing : String}

/-- A member goes with the space after it. -/
lemma memberRound_again (hobject : Counting.Consuming object)
    (h : memberRound object state = .again next) : Within next.1 state.1 := by
  obtain ⟨s, n⟩ := state
  cases s with
  | nil => cases h
  | cons b r =>
    simp only [memberRound] at h
    split at h
    · cases h
    · split at h
      · next t k hread =>
        cases h
        exact .of_suffix (space_suffix t) (hobject _ n t k hread)
      · cases h

lemma memberRound_done (h : memberRound object state = .done (some r, k)) : Within r state.1 := by
  obtain ⟨s, n⟩ := state
  cases s with
  | nil => cases h
  | cons b rest =>
    simp only [memberRound] at h
    split at h
    · cases h
      exact within_cons b r
    · split at h <;> cases h

/-- An entry is a name and an object, with the space after each. -/
lemma entryRound_again (hobject : Counting.Consuming object)
    (h : entryRound closing object state = .again next) : Within next.1 state.1 := by
  obtain ⟨s, n⟩ := state
  simp only [entryRound] at h
  split at h
  · cases h
  · split at h
    · cases h
    · next t hname =>
      split at h
      · next u k hread =>
        cases h
        have hvalue := (hobject _ n u k hread).suffix.trans (space_suffix t)
        exact .of_suffix ((space_suffix u).trans hvalue) (name_consuming s t hname)
      · cases h

lemma entryRound_done (hclosing : 0 < (ascii closing).length)
    (h : entryRound closing object state = .done (some r, k)) : Within r state.1 := by
  obtain ⟨s, n⟩ := state
  simp only [entryRound] at h
  split at h
  · next hread =>
    cases h
    exact tag_consuming hclosing s r hread
  · split at h
    · cases h
    · split at h <;> cases h

/-- A loop whose rounds all consume leaves part of what it was given. -/
theorem run_suffix {body : Bytes × ℕ → Round (Bytes × ℕ) (Option Bytes × ℕ)}
    (hagain : ∀ state next, body state = .again next → Within next.1 state.1)
    (hdone : ∀ state r k, body state = .done (some r, k) → Within r state.1)
    (h : run (·.1.length) body state = (some r, k)) : r <:+ state.1 := by
  refine run_induction (P := fun next => next.1 <:+ state.1)
    (Q := fun result => ∀ r k, result = (some r, k) → r <:+ state.1)
    (fun s t hround => (hagain s t hround).length_lt) ?_ ?_ (suffix_refl _) r k h
  · exact fun s t hsuffix hround => (hagain s t hround).suffix.trans hsuffix
  · intro s result hsuffix hround r k hresult
    exact (hdone s r k (hresult ▸ hround)).suffix.trans hsuffix

section

variable {member : Option (Counting UInt8)} (h : ∀ object ∈ member, Counting.Consuming object)

include h

lemma array_consuming : Counting.Consuming (array member) := by
  intro s n r k hread
  unfold array at hread
  split at hread
  · next t object htag =>
    refine .of_suffix ?_ (tag_consuming (by decide) s t htag)
    exact (run_suffix (fun _ _ => memberRound_again (h object rfl))
      (fun _ _ _ => memberRound_done) hread).trans (space_suffix t)
  · cases hread

lemma dictionary_consuming : Counting.Consuming (dictionary member) := by
  intro s n r k hread
  unfold dictionary at hread
  split at hread
  · next t object htag =>
    refine .of_suffix ?_ (tag_consuming (by decide) s t htag)
    exact (run_suffix (fun _ _ => entryRound_again (h object rfl))
      (fun _ _ _ => entryRound_done (by decide)) hread).trans (space_suffix t)
  · cases hread

lemma objectWith_consuming (withReference : Bool) :
    Counting.Consuming (objectWith member withReference) := by
  intro s n r k hread
  have horder := (atoms_consuming withReference).plain.orElse <|
    (dictionary_consuming h).orElse <| hexString_consuming.plain.orElse (array_consuming h)
  exact horder s (n + 1) r k hread

end

end Objects

lemma object_consuming (depth : ℕ) (withReference : Bool) :
    Counting.Consuming (object depth withReference) := by
  induction depth generalizing withReference with
  | zero =>
    refine objectWith_consuming ?_ withReference
    intro member hmember
    cases hmember
  | succ depth ih =>
    refine objectWith_consuming ?_ withReference
    intro member hmember
    cases hmember
    exact ih true

lemma imageBytes_suffix (h : imageBytes s = some r) : r <:+ s := by
  induction s with
  | nil => cases h
  | cons b rest ih =>
    rw [imageBytes] at h
    split at h
    · cases h
      exact (drop_suffix 2 rest).trans (suffix_cons b rest)
    · exact (ih h).trans (suffix_cons b rest)

lemma inlineImage_consuming : Counting.Consuming inlineImage := by
  intro s n r k hread
  unfold inlineImage at hread
  split at hread
  · cases hread
  · next t htag =>
    split at hread
    · cases hread
    · next u j hentries =>
      obtain ⟨v, hbytes, rfl⟩ := map_eq_some_iff.mp (Prod.mk.inj hread).1
      have hentries := (run_suffix
        (fun _ _ => entryRound_again (object_consuming maxNestingDepth true))
        (fun _ _ _ => entryRound_done (by decide)) hentries).trans (contentSpace_suffix t)
      have hbytes := (imageBytes_suffix hbytes).trans (contentSpace_suffix u)
      exact .of_suffix (((contentSpace_suffix v).trans hbytes).trans hentries)
        (tag_consuming (by decide) s t htag)

lemma operand_consuming : Counting.Consuming operand := by
  intro s n r k hread
  unfold operand at hread
  split at hread
  · next t j hobject =>
    cases hread
    exact .of_suffix (contentSpace_suffix t) (object_consuming _ _ s n t _ hobject)
  · cases hread

lemma operandRound_again (h : operandRound state = .again next) :
    operand state.1 state.2 = (some next.1, next.2) := by
  obtain ⟨s, n⟩ := state
  simp only [operandRound] at h
  split at h
  · next hread =>
    cases h
    exact hread
  · cases h

lemma operandRound_done {result : Bytes × ℕ} (h : operandRound state = .done result) :
    operand state.1 state.2 = (none, result.2) ∧ result.1 = state.1 := by
  obtain ⟨s, n⟩ := state
  simp only [operandRound] at h
  split at h
  · cases h
  · next hread =>
    cases h
    exact ⟨hread, rfl⟩

/-- An operand takes a byte at least, so the loop ends. -/
lemma operandRound_lowers : Lowers (·.1.length) operandRound :=
  fun _ _ h => (operand_consuming _ _ _ _ (operandRound_again h)).length_lt

lemma operands_suffix (s : Bytes) (n : ℕ) : (operands s n).1 <:+ s := by
  refine run_induction (P := fun state => state.1 <:+ s) (Q := fun result => result.1 <:+ s)
    operandRound_lowers ?_ ?_ (suffix_refl s)
  · intro state next hsuffix hround
    exact (operand_consuming _ _ _ _ (operandRound_again hround)).suffix.trans hsuffix
  · intro state result hsuffix hround
    rw [(operandRound_done hround).2]
    exact hsuffix

lemma plainOperation_consuming : Counting.Consuming plainOperation := by
  intro s n r k hread
  obtain ⟨hread, _⟩ := Prod.mk.inj hread
  obtain ⟨t, hoperator, rfl⟩ := map_eq_some_iff.mp hread
  exact Within.of_suffix (contentSpace_suffix t)
    ((oneOrMore_consuming _ _ t hoperator).trans_suffix (operands_suffix s n))

lemma operation_within (h : operation s n = (some r, k)) : Within r s :=
  (inlineImage_consuming.orElse plainOperation_consuming _ n r k h).trans_suffix
    (comments_suffix s)

lemma contentSpace_contentSpace (s : Bytes) : contentSpace (contentSpace s) = contentSpace s :=
  dropWhile_idempotent _ _

/-- An operation takes the space after it along. -/
lemma contentSpace_of_operation (h : operation s n = (some r, k)) : contentSpace r = r := by
  have hspaced : ∃ t, r = contentSpace t := by
    unfold operation Counting.orElse at h
    split at h
    · next himage =>
      have hread := himage.trans h
      unfold inlineImage at hread
      split at hread
      · cases hread
      · split at hread
        · cases hread
        · obtain ⟨t, _, rfl⟩ := map_eq_some_iff.mp (Prod.mk.inj hread).1
          exact ⟨t, rfl⟩
    · obtain ⟨t, _, rfl⟩ := map_eq_some_iff.mp (Prod.mk.inj h).1
      exact ⟨t, rfl⟩
  obtain ⟨t, rfl⟩ := hspaced
  exact contentSpace_contentSpace t

end Kwiry.Pdf.Split
