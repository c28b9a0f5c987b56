import Kwiry.Excel.Spreadsheet
import Mathlib.Data.List.TakeWhile

/-!
# Cell References

The letters of a column are a numeral in base 26 without a zero, and the row is written in decimal.
A reference that is accepted names the exact numbers of its letters and digits; what a coordinate is
written as is the one reference to it in upper case without zeros before the row.
-/

namespace Kwiry.Excel

open Foundations List

namespace CellCoordinate

lemma order_eq_lt_iff {a b : CellCoordinate} :
    order a b = .lt ↔ a.row < b.row ∨ a.row = b.row ∧ a.column < b.column := by
  simp only [order, compareLex, compareOn, Ordering.then_eq_lt, Nat.compare_eq_lt,
    Nat.compare_eq_eq]

instance : Std.LawfulEqCmp order where
  eq_of_compare := by
    intro a b h
    simp only [order, compareLex, compareOn, Ordering.then_eq_eq, Nat.compare_eq_eq] at h
    exact CellCoordinate.ext_iff.mpr h

/-- A cell that a worksheet can have. -/
def InGrid (coordinate : CellCoordinate) : Prop :=
  (0 < coordinate.row ∧ coordinate.row ≤ maxExcelRows) ∧
    (0 < coordinate.column ∧ coordinate.column ≤ maxExcelColumns)

end CellCoordinate

open CellCoordinate

/-! ## §1 Columns -/

/-- What a letter adds to a column. -/
def letterValue (letter : Char) : ℕ :=
  letter.toUpper.toNat - 'A'.toNat + 1

/-- The column that letters name, whatever its size. -/
def columnValue (letters : Text) : ℕ :=
  letters.foldl (fun column letter => 26 * column + letterValue letter) 0

lemma columnValue_concat (letters : Text) (letter : Char) :
    columnValue (letters ++ [letter]) = 26 * columnValue letters + letterValue letter := by
  simp [columnValue]

lemma toUpper_bounds {c : Char} (h : c.isAlpha = true) :
    'A'.toNat ≤ c.toUpper.toNat ∧ c.toUpper.toNat ≤ 'Z'.toNat := by
  have hall : ∀ n < 128, (Char.ofNat n).isAlpha = true →
      'A'.toNat ≤ (Char.ofNat n).toUpper.toNat ∧ (Char.ofNat n).toUpper.toNat ≤ 'Z'.toNat := by
    decide
  have hascii : c.toNat < 128 := by
    have hval : (decide (c.val ≥ 65 ∧ c.val ≤ 90) ||
      (decide (c.val ≥ 97) && decide (c.val ≤ 122))) = true := h
    have hnat : c.toNat = c.val.toNat := rfl
    simp [UInt32.le_iff_toNat_le] at hval
    omega
  rw [← Char.ofNat_toNat c] at h ⊢
  exact hall _ hascii h

lemma letter_spec {n : ℕ} (h : n < 26) :
    (Char.ofNat ('A'.toNat + n)).isAlpha = true ∧
      letterValue (Char.ofNat ('A'.toNat + n)) = n + 1 := by
  have hall : ∀ n < 26, (Char.ofNat ('A'.toNat + n)).isAlpha = true ∧
      letterValue (Char.ofNat ('A'.toNat + n)) = n + 1 := by
    decide
  exact hall n h

lemma letters_eq {column : ℕ} (h : column ≠ 0) :
    letters column =
      Char.ofNat ('A'.toNat + (column - 1) % 26) :: letters ((column - 1) / 26) := by
  rw [letters, if_neg h]

lemma letters_zero : letters 0 = [] := by
  rw [letters, if_pos rfl]

lemma isAlpha_of_mem_letters {column : ℕ} : ∀ c ∈ (letters column).reverse, c.isAlpha = true := by
  induction column using letters.induct with
  | case1 => simp [letters_zero]
  | case2 column hcolumn ih =>
    intro c hc
    rw [letters_eq hcolumn, reverse_cons] at hc
    rcases mem_append.mp hc with hmem | hlast
    · exact ih c hmem
    · rw [mem_singleton.mp hlast]
      exact (letter_spec (Nat.mod_lt _ (by decide))).1

lemma columnValue_letters (column : ℕ) : columnValue (letters column).reverse = column := by
  induction column using letters.induct with
  | case1 => simp [letters_zero, columnValue]
  | case2 column hcolumn ih =>
    rw [letters_eq hcolumn, reverse_cons, columnValue_concat, ih,
      (letter_spec (Nat.mod_lt _ (by decide))).2]
    omega

lemma letters_columnValue {text : Text} (h : ∀ c ∈ text, c.isAlpha = true) :
    (letters (columnValue text)).reverse = text.map Char.toUpper := by
  induction text using reverseRecOn with
  | nil => simp [letters_zero, columnValue]
  | append_singleton text c ih =>
    have hrest := ih fun d hd => h d (mem_append_left _ hd)
    obtain ⟨hlow, hhigh⟩ := toUpper_bounds (h c (by simp))
    -- the letter's value is its place from one on, so one less is the remainder
    have hpred : 26 * columnValue text + letterValue c - 1 =
        26 * columnValue text + (c.toUpper.toNat - 'A'.toNat) := rfl
    have hplace : c.toUpper.toNat - 'A'.toNat < 26 := by
      simp only [Char.reduceToNat] at *
      omega
    rw [columnValue_concat, letters_eq (by rw [letterValue]; omega), hpred, Nat.mul_add_mod,
      Nat.mod_eq_of_lt hplace, Nat.mul_add_div (by decide), Nat.div_eq_of_lt hplace, Nat.add_zero,
      Nat.add_sub_cancel' hlow, Char.ofNat_toNat, reverse_cons, hrest]
    simp

/-- The checked arithmetic gives up exactly where the column does not fit 32 bits. -/
theorem foldl_pushLetter (text : Text) :
    text.foldl pushLetter (some 0) =
      if columnValue text < 2 ^ 32 then some (columnValue text) else none := by
  induction text using reverseRecOn with
  | nil => rfl
  | append_singleton text c ih =>
    rw [foldl_append, foldl_cons, foldl_nil, ih, columnValue_concat]
    by_cases hfit : columnValue text < 2 ^ 32
    · rw [if_pos hfit]
      rfl
    · rw [if_neg hfit, if_neg (by omega)]
      rfl

/-! ## §2 References -/

/-- Letters, then digits. -/
def IsReference (value : Text) : Prop :=
  value.takeWhile Char.isAlpha ≠ [] ∧ value.dropWhile Char.isAlpha ≠ [] ∧
    ∀ c ∈ value.dropWhile Char.isAlpha, c.isDigit = true

/-- The coordinate that letters and digits name, whatever its size. -/
def exactCoordinate (value : Text) : CellCoordinate where
  row := Nat.ofDigitChars 10 (value.dropWhile Char.isAlpha) 0
  column := columnValue (value.takeWhile Char.isAlpha)

/-- A reference in upper case, without zeros before its row. -/
def canonicalA1 (value : Text) : Text :=
  (value.takeWhile Char.isAlpha).map Char.toUpper ++
    (value.dropWhile Char.isAlpha).dropWhile (· = '0')

variable {value : Text}

lemma parseGridNumber_eq_ok_iff {maximum row : ℕ} (hne : value ≠ [])
    (hdigits : ∀ c ∈ value, c.isDigit = true) (hmax : maximum < 2 ^ 32) :
    parseGridNumber value maximum = .ok row ↔
      row = Nat.ofDigitChars 10 value 0 ∧ 0 < row ∧ row ≤ maximum := by
  have hall : (value.any fun c => ¬ c.isDigit) = false :=
    any_eq_false.mpr fun c hc => by simp [hdigits c hc]
  rw [parseGridNumber, parseDigits, hall, if_neg (by decide), parseUnsigned_digits hne hdigits]
  by_cases hfit : Nat.ofDigitChars 10 value 0 < 2 ^ 32
  · simp only [if_pos hfit]
    split
    · grind
    · grind
  · simp only [if_neg hfit]
    grind

lemma parseA1_eq_ok_iff {coordinate : CellCoordinate} :
    parseA1 value = .ok coordinate ↔
      IsReference value ∧ coordinate = exactCoordinate value ∧ coordinate.InGrid := by
  rw [parseA1, foldl_pushLetter]
  by_cases hreference : IsReference value
  · have hshape : ¬ (value.takeWhile Char.isAlpha = [] ∨ value.dropWhile Char.isAlpha = [] ∨
        (value.dropWhile Char.isAlpha).any (fun c => ¬ c.isDigit) = true) := by
      obtain ⟨hletters, hdigits, hall⟩ := hreference
      simp only [hletters, hdigits, false_or, Bool.not_eq_true]
      exact any_eq_false.mpr fun c hc => by simp [hall c hc]
    rw [if_neg hshape]
    have hread (row : ℕ) := @parseGridNumber_eq_ok_iff _ _ row hreference.2.1 hreference.2.2
      (show maxExcelRows < 2 ^ 32 by decide)
    by_cases hcolumn : 0 < columnValue (value.takeWhile Char.isAlpha) ∧
        columnValue (value.takeWhile Char.isAlpha) ≤ maxExcelColumns
    · have hfit : columnValue (value.takeWhile Char.isAlpha) < 2 ^ 32 :=
        hcolumn.2.trans_lt (by decide)
      simp only [if_pos hfit, if_pos hcolumn, bind_ok_iff, hread, pure, Except.pure,
        Except.ok.injEq]
      constructor
      · rintro ⟨row, ⟨rfl, hrow⟩, rfl⟩
        exact ⟨hreference, rfl, hrow, hcolumn⟩
      · rintro ⟨-, rfl, hgrid⟩
        exact ⟨_, ⟨rfl, hgrid.1⟩, rfl⟩
    · refine iff_of_false ?_ fun h => hcolumn (h.2.1 ▸ h.2.2).2
      by_cases hfit : columnValue (value.takeWhile Char.isAlpha) < 2 ^ 32
      · simp only [if_pos hfit, if_neg hcolumn, reduceCtorEq, not_false_eq_true]
      · simp only [if_neg hfit, reduceCtorEq, not_false_eq_true]
  · rw [if_pos (by unfold IsReference at hreference; grind)]
    grind

lemma not_isAlpha_of_isDigit {c : Char} (h : c.isDigit = true) : c.isAlpha = false := by
  have hdigit : (decide (c.val ≥ 48) && decide (c.val ≤ 57)) = true := h
  have halpha : c.isAlpha = (decide (c.val ≥ 65 ∧ c.val ≤ 90) ||
    (decide (c.val ≥ 97) && decide (c.val ≤ 122))) := rfl
  rw [halpha]
  grind

lemma takeWhile_a1 (coordinate : CellCoordinate) :
    coordinate.a1.takeWhile Char.isAlpha = (letters coordinate.column).reverse ∧
      coordinate.a1.dropWhile Char.isAlpha = Nat.toDigits 10 coordinate.row := by
  have hdigits := isDigit_toDigits coordinate.row
  obtain ⟨c, rest, hrow⟩ := exists_cons_of_ne_nil (Nat.toDigits_ne_nil (b := 10)
    (n := coordinate.row))
  rw [hrow] at hdigits
  have hstop : ¬ c.isAlpha = true := by simp [not_isAlpha_of_isDigit (hdigits c mem_cons_self)]
  rw [a1, takeWhile_append_of_pos isAlpha_of_mem_letters,
    dropWhile_append_of_pos isAlpha_of_mem_letters, hrow, takeWhile_cons_of_neg hstop,
    dropWhile_cons_of_neg hstop, append_nil]
  exact ⟨rfl, rfl⟩

lemma exactCoordinate_a1 (coordinate : CellCoordinate) :
    exactCoordinate coordinate.a1 = coordinate := by
  obtain ⟨htake, hdrop⟩ := takeWhile_a1 coordinate
  rw [exactCoordinate, htake, hdrop, columnValue_letters, Nat.ofDigitChars_ten_toDigits]

lemma CellCoordinate.a1_injective : Function.Injective a1 :=
  Function.LeftInverse.injective exactCoordinate_a1

lemma isReference_a1 {coordinate : CellCoordinate} (h : coordinate.column ≠ 0) :
    IsReference coordinate.a1 := by
  obtain ⟨htake, hdrop⟩ := takeWhile_a1 coordinate
  rw [IsReference, htake, hdrop, letters_eq h]
  exact ⟨by simp, Nat.toDigits_ne_nil, isDigit_toDigits _⟩

lemma a1_exactCoordinate (h : IsReference value) (hrow : (exactCoordinate value).row ≠ 0) :
    (exactCoordinate value).a1 = canonicalA1 value := by
  have hletters : ∀ c ∈ value.takeWhile Char.isAlpha, c.isAlpha = true :=
    fun c hc => mem_takeWhile_imp hc
  have hdigits := dropWhile_zero_digits h.2.2
  rw [if_neg (show Nat.ofDigitChars 10 (value.dropWhile Char.isAlpha) 0 ≠ 0 from hrow)] at hdigits
  rw [canonicalA1, hdigits, ← letters_columnValue hletters]
  rfl

/-- References and the cells of the grid are the same, up to case and the zeros before a row: what a
cell is written as is read back, what is read is written canonically, and nothing is read but the
exact numbers of a reference inside the grid. -/
theorem a1_roundTrip :
    (∀ coordinate : CellCoordinate, coordinate.InGrid →
      parseA1 coordinate.a1 = .ok coordinate) ∧
    (∀ value coordinate, parseA1 value = .ok coordinate → coordinate.a1 = canonicalA1 value) ∧
    (∀ value coordinate, parseA1 value = .ok coordinate ↔
      IsReference value ∧ coordinate = exactCoordinate value ∧ coordinate.InGrid) ∧
    ∀ value : Text, ∀ letter ∈ value.takeWhile Char.isAlpha,
      'A'.toNat ≤ letter.toUpper.toNat ∧ letterValue letter ≤ 26 := by
  refine ⟨?_, ?_, fun value coordinate => parseA1_eq_ok_iff, ?_⟩
  · intro coordinate hgrid
    rw [parseA1_eq_ok_iff, exactCoordinate_a1]
    exact ⟨isReference_a1 hgrid.2.1.ne', rfl, hgrid⟩
  · intro value coordinate h
    obtain ⟨hreference, rfl, hgrid⟩ := parseA1_eq_ok_iff.mp h
    exact a1_exactCoordinate hreference hgrid.1.1.ne'
  · intro value letter hletter
    obtain ⟨hlow, hhigh⟩ := toUpper_bounds (mem_takeWhile_imp hletter)
    refine ⟨hlow, ?_⟩
    rw [letterValue]
    simp only [Char.reduceToNat] at *
    omega

theorem a1_roundTrip_zeros : (CellCoordinate.mk 7 28).a1 = "AB7".toList :=
  (a1_roundTrip.2.1 "aB07".toList ⟨7, 28⟩ (by decide)).trans (by decide)

end Kwiry.Excel
