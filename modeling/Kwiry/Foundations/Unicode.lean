import Mathlib.Data.List.Sort
import Kwiry.Foundations.Bytes

/-!
# Character Tables and Text Folding

The part of the Unicode character database that text processing reads, as a record of
functions, with the case-and-accent folding and the whitespace operations built on it.

Canonical ordering only permutes characters of nonzero combining class. Once those are
dropped, folding a text is folding its characters one by one (`fold_eq_flatMap`), and
every later argument about folded text starts from there.
-/

namespace Kwiry.Foundations

open List

/-! ## §1 Whitespace -/

/-- The `White_Space` property. -/
def isWhitespace (c : Char) : Bool :=
  let n := c.toNat
  (9 ≤ n && n ≤ 13) || n == 0x20 || n == 0x85 || n == 0xA0 || n == 0x1680 ||
    (0x2000 ≤ n && n ≤ 0x200A) || n == 0x2028 || n == 0x2029 || n == 0x202F ||
    n == 0x205F || n == 0x3000

/-- Maximal runs of characters satisfying `p`, in order; `run` is the run in progress. -/
def runsAux (p : Char → Bool) : Text → Text → List Text
  | [], [] => []
  | run, [] => [run]
  | [], c :: t => if p c then runsAux p [c] t else runsAux p [] t
  | run, c :: t => if p c then runsAux p (run ++ [c]) t else run :: runsAux p [] t

/-- Maximal nonempty runs of characters satisfying `p`. -/
def runs (p : Char → Bool) (t : Text) : List Text :=
  runsAux p [] t

/-- The whitespace-separated words of a text. -/
def splitWhitespace (t : Text) : List Text :=
  runs (fun c => !isWhitespace c) t

/-- A text without its leading and trailing whitespace. -/
def trim (t : Text) : Text :=
  ((t.dropWhile isWhitespace).reverse.dropWhile isWhitespace).reverse

/-- A text with no character outside whitespace. -/
def isBlank (t : Text) : Bool :=
  t.all isWhitespace

/-- Texts joined by a separator. -/
def joinWith (sep : Text) (ts : List Text) : Text :=
  flatten (ts.intersperse sep)

-- along the text, not over all characters
instance (priority := high) decidableForallMem {P : Char → Prop} [DecidablePred P] (t : Text) :
    Decidable (∀ c ∈ t, P c) :=
  decidableBAll P t

/-! ## §2 Tables -/

/-- The character functions a Unicode database supplies. -/
structure CharTables where
  /-- Full lower-case mapping of one character. -/
  toLowercase : Char → Text
  /-- Full canonical decomposition of one character. -/
  decompose : Char → Text
  /-- Canonical combining class. -/
  combiningClass : Char → ℕ
  /-- General category Mark. -/
  isCombiningMark : Char → Bool
  /-- The `Alphabetic` property. -/
  isAlphabetic : Char → Bool
  /-- The `Uppercase` property. -/
  isUppercase : Char → Bool
  /-- The `Lowercase` property. -/
  isLowercase : Char → Bool
  /-- General categories `Nd`, `Nl` and `No`. -/
  isNumeric : Char → Bool
  /-- General category `Nd`. -/
  isDecimalDigit : Char → Bool
  /-- The word class: alphabetic, marks, decimal digits, connectors, join controls. -/
  isWord : Char → Bool
  /-- Only marks have a nonzero combining class. -/
  mark_of_combiningClass : ∀ c, combiningClass c ≠ 0 → isCombiningMark c = true

namespace CharTables

variable (T : CharTables)

/-- Alphabetic or numeric. -/
def isAlphanumeric (c : Char) : Bool :=
  T.isAlphabetic c || T.isNumeric c

/-! ## §3 Canonical decomposition and folding -/

/-- Canonical ordering: each maximal run of nonzero combining class is sorted stably by class. `run`
is the run in progress. -/
def canonicalOrderAux : Text → Text → Text
  | run, [] => run.insertionSort fun a b => T.combiningClass a ≤ T.combiningClass b
  | run, c :: t =>
    if T.combiningClass c = 0 then
      (run.insertionSort fun a b => T.combiningClass a ≤ T.combiningClass b)
        ++ c :: canonicalOrderAux [] t
    else
      canonicalOrderAux (run ++ [c]) t

/-- Normalization form D of a text. -/
def nfd (t : Text) : Text :=
  T.canonicalOrderAux [] (t.flatMap T.decompose)

/-- Lower-case, decompose, and drop combining marks. -/
def fold (t : Text) : Text :=
  (T.nfd (t.flatMap T.toLowercase)).filter fun c => !T.isCombiningMark c

/-- What folding leaves of a single character. -/
def foldChar (c : Char) : Text :=
  ((T.toLowercase c).flatMap T.decompose).filter fun d => !T.isCombiningMark d

lemma filter_insertionSort_marks (run : Text) (hrun : ∀ c ∈ run, T.combiningClass c ≠ 0) :
    (run.insertionSort fun a b => T.combiningClass a ≤ T.combiningClass b).filter
      (fun c => !T.isCombiningMark c) = [] := by
  rw [filter_eq_nil_iff]
  intro c hc
  simp [T.mark_of_combiningClass c (hrun c ((mem_insertionSort _).mp hc))]

lemma filter_canonicalOrderAux (t run : Text) (hrun : ∀ c ∈ run, T.combiningClass c ≠ 0) :
    (T.canonicalOrderAux run t).filter (fun c => !T.isCombiningMark c) =
      t.filter fun c => !T.isCombiningMark c := by
  induction t generalizing run with
  | nil => exact T.filter_insertionSort_marks run hrun
  | cons c t ih =>
    rw [canonicalOrderAux]
    split
    · rw [filter_append, T.filter_insertionSort_marks run hrun, nil_append,
        filter_cons, filter_cons, ih [] (by simp)]
    · rename_i hclass
      have hmark := T.mark_of_combiningClass c hclass
      rw [ih (run ++ [c]) (by
        intro d hd
        rcases mem_append.mp hd with hd | hd
        · exact hrun d hd
        · rw [mem_singleton.mp hd]
          exact hclass)]
      simp [hmark]

lemma fold_eq_flatMap (t : Text) : T.fold t = t.flatMap T.foldChar := by
  rw [fold, nfd, T.filter_canonicalOrderAux _ [] (by simp)]
  induction t with
  | nil => rfl
  | cons c t ih =>
    simp only [flatMap_cons, flatMap_append, filter_append] at ih ⊢
    rw [ih]
    rfl

@[simp] lemma fold_nil : T.fold [] = [] := by
  simp [fold_eq_flatMap]

/-! ## §4 What the character database says

The laws of folding and of the character classes that tokenizers rely on. Each is a statement
about single characters. -/

/-- Token characters: alphanumeric ones and the marks that ride on them. -/
def isTokenChar (c : Char) : Bool :=
  T.isAlphanumeric c || T.isCombiningMark c

structure Lawful : Prop where
  /-- Folded characters are fixed by folding. -/
  foldChar_foldChar : ∀ c, ∀ d ∈ T.foldChar c, T.foldChar d = [d]
  /-- A token character folds to alphanumeric characters, if to any. -/
  foldChar_token : ∀ c, T.isTokenChar c = true → ∀ d ∈ T.foldChar c, T.isAlphanumeric d = true
  /-- A delimiter folds to delimiters, at least one. -/
  foldChar_delimiter : ∀ c, T.isTokenChar c = false →
    T.foldChar c ≠ [] ∧ ∀ d ∈ T.foldChar c, T.isAlphanumeric d = false
  /-- A mark folds away. -/
  foldChar_mark : ∀ c, T.isCombiningMark c = true → T.foldChar c = []
  /-- Folding keeps whitespace and makes none. -/
  foldChar_whitespace : ∀ c, ∀ d ∈ T.foldChar c, isWhitespace d = isWhitespace c
  /-- Whitespace is no token character. -/
  token_of_whitespace : ∀ c, isWhitespace c = true → T.isTokenChar c = false
  /-- ASCII folds to lower case. -/
  foldChar_ascii : ∀ c, c.toNat < 128 → T.foldChar c = [c.toLower]
  alphabetic_ascii : ∀ c, c.toNat < 128 → T.isAlphabetic c = c.isAlpha
  numeric_ascii : ∀ c, c.toNat < 128 → T.isNumeric c = c.isDigit
  decimalDigit_ascii : ∀ c, c.toNat < 128 → T.isDecimalDigit c = c.isDigit
  word_ascii : ∀ c, c.toNat < 128 → T.isWord c = (c.isAlphanum || c == '_')
  /-- The two characters outside ASCII that fold case into it: the Kelvin sign is a letter k, the
  long s folds to itself. -/
  kelvin : T.foldChar '\u212A' = ['k'] ∧ T.isAlphabetic '\u212A' = true ∧
    T.isWord '\u212A' = true
  longS : T.foldChar '\u017F' = ['\u017F'] ∧ T.isAlphabetic '\u017F' = true ∧
    T.isWord '\u017F' = true
  /-- Decimal digits have no case and no accents. -/
  decimalDigit : ∀ c, T.isDecimalDigit c = true →
    T.foldChar c = [c] ∧ T.isNumeric c = true ∧ T.isWord c = true

/-! ## §5 A small table

ASCII, the two characters that fold case into it, and one character each of the remaining
kinds: an accented letter, the accent it decomposes into, and a numeral outside words. Any
other character is an unclassified fixed point. -/

def latin : CharTables where
  toLowercase c := if c = '\u212A' then ['k'] else [c.toLower]
  decompose c := if c = '\u00E9' then ['e', '\u0301'] else [c]
  combiningClass c := if c = '\u0301' then 230 else 0
  isCombiningMark c := c == '\u0301'
  isAlphabetic c := c.isAlpha || c == '\u017F' || c == '\u212A' || c == '\u00E9'
  isUppercase c := c.isUpper || c == '\u212A'
  isLowercase c := c.isLower || c == '\u017F' || c == '\u00E9'
  isNumeric c := c.isDigit || c == '\u00B2'
  isDecimalDigit c := c.isDigit
  isWord c := c.isAlphanum || c == '_' || c == '\u017F' || c == '\u212A' || c == '\u00E9' ||
    c == '\u0301'
  mark_of_combiningClass c h := by
    by_contra hne
    exact h (if_neg (by simpa using hne))

lemma of_ascii {P : Char → Prop} (h : ∀ n < 128, P (Char.ofNat n)) (c : Char)
    (hc : c.toNat < 128) : P c := by
  have hP := h c.toNat hc
  rwa [Char.ofNat_toNat] at hP

lemma beyond_ascii {c : Char} (hc : ¬ c.toNat < 128) :
    c.isAlpha = false ∧ c.isDigit = false ∧ c.toLower = c := by
  have hval : 128 ≤ c.val.toNat := Nat.le_of_not_lt hc
  have hlt : ∀ n : UInt32, n.toNat < 128 → n < c.val :=
    fun n hn => UInt32.lt_iff_toNat_lt.mpr (hn.trans_le hval)
  refine ⟨?_, ?_, ?_⟩
  · have hupper : c.isUpper = false :=
      decide_eq_false fun h => UInt32.not_le.mpr (hlt _ (by decide)) h.2
    have hlower : c.isLower = false :=
      Bool.and_eq_false_iff.mpr (.inr
        (decide_eq_false fun h => UInt32.not_le.mpr (hlt _ (by decide)) h))
    exact Bool.or_eq_false_iff.mpr ⟨hupper, hlower⟩
  · simp only [Char.isDigit, ge_iff_le, Bool.and_eq_false_iff, decide_eq_false_iff_not,
      UInt32.not_le]
    exact .inr (hlt _ (by decide))
  · unfold Char.toLower
    rw [dif_neg]
    exact fun h => UInt32.not_le.mpr (hlt _ (by decide)) h.2

/-- What holds of all characters of the small table: of ASCII, of the three it folds, and of the
others, which are fixed. -/
theorem latin_cases {P : Char → Prop} (hascii : ∀ n < 128, P (Char.ofNat n)) (hkelvin : P '\u212A')
    (haccented : P '\u00E9') (hmark : P '\u0301')
    (hother : ∀ c, ¬ c.toNat < 128 → c ≠ '\u212A' → c ≠ '\u00E9' → c ≠ '\u0301' →
      latin.foldChar c = [c] → P c) (c : Char) : P c := by
  by_cases hc : c.toNat < 128
  · exact of_ascii hascii c hc
  by_cases hk : c = '\u212A'
  · exact hk ▸ hkelvin
  by_cases he : c = '\u00E9'
  · exact he ▸ haccented
  by_cases hm : c = '\u0301'
  · exact hm ▸ hmark
  exact hother c hc hk he hm (by simp [foldChar, latin, hk, he, hm, (beyond_ascii hc).2.2])

lemma latin_lawful : latin.Lawful where
  foldChar_foldChar := by
    apply latin_cases
    on_goal 5 =>
      intro c _ _ _ _ hfold
      simp [hfold]
    all_goals decide +kernel
  foldChar_token := by
    apply latin_cases
    on_goal 5 =>
      intro c _ _ _ hm hfold htoken
      have hmark : latin.isCombiningMark c = false := by simpa [latin] using hm
      simpa [hfold, isTokenChar, hmark] using htoken
    all_goals decide +kernel
  foldChar_delimiter := by
    apply latin_cases
    on_goal 5 =>
      intro c _ _ _ _ hfold htoken
      rw [isTokenChar, Bool.or_eq_false_iff] at htoken
      simpa [hfold] using htoken.1
    all_goals decide +kernel
  foldChar_mark c hmark := by
    have hc : c = '\u0301' := by simpa [latin] using hmark
    subst hc
    decide +kernel
  foldChar_whitespace := by
    apply latin_cases
    on_goal 5 =>
      intro c _ _ _ _ hfold
      simp [hfold]
    all_goals decide +kernel
  token_of_whitespace := by
    apply latin_cases
    on_goal 5 =>
      intro c hc _ _ _ _ hspace
      have hne : ∀ d : Char, isWhitespace d = false → c ≠ d := by
        rintro d hd rfl
        rw [hspace] at hd
        cases hd
      obtain ⟨halpha, hdigit, -⟩ := beyond_ascii hc
      simp [isTokenChar, isAlphanumeric, latin, halpha, hdigit, hne '\u017F' (by decide +kernel),
        hne '\u212A' (by decide +kernel), hne '\u00E9' (by decide), hne '\u00B2' (by decide),
        hne '\u0301' (by decide +kernel)]
    all_goals decide +kernel
  foldChar_ascii c hc := of_ascii (P := fun c => latin.foldChar c = [c.toLower]) (by decide +kernel) c hc
  alphabetic_ascii c hc :=
    of_ascii (P := fun c => latin.isAlphabetic c = c.isAlpha) (by decide +kernel) c hc
  numeric_ascii c hc := of_ascii (P := fun c => latin.isNumeric c = c.isDigit) (by decide +kernel) c hc
  decimalDigit_ascii _ _ := rfl
  word_ascii c hc :=
    of_ascii (P := fun c => latin.isWord c = (c.isAlphanum || c == '_')) (by decide +kernel) c hc
  kelvin := by decide +kernel
  longS := by decide +kernel
  decimalDigit := by
    apply latin_cases
    on_goal 5 =>
      intro c hc _ _ _ _ hdigit
      have hno : c.isDigit = true := hdigit
      rw [(beyond_ascii hc).2.1] at hno
      cases hno
    all_goals decide +kernel

end CharTables

end Kwiry.Foundations
