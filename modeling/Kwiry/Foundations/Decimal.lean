import Kwiry.Foundations.Bytes
import Mathlib.Data.List.Induction

/-!
# Decimal Texts

Reading the decimal texts of bounded integers, with the signs that are allowed before them.
-/

namespace Kwiry.Foundations

open List Option

/-- Decimal digits with an optional plus sign, below a bound. -/
def parseUnsigned (bound : ℕ) (text : Text) : Option ℕ :=
  let digits := match text with
    | '+' :: rest => rest
    | _ => text
  if digits.isEmpty || !digits.all Char.isDigit then none
  else
    let value := digits.foldl (fun value c => value * 10 + (c.toNat - '0'.toNat)) 0
    if value < bound then some value else none

/-- Decimal digits with an optional sign, within `[-bound, bound)`. -/
def parseSigned (bound : ℕ) (text : Text) : Option ℤ :=
  match text with
  | '-' :: '+' :: _ => none
  | '-' :: digits => (parseUnsigned (bound + 1) digits).map fun value => -(value : ℤ)
  | _ => (parseUnsigned bound text).map fun value => (value : ℤ)

/-- A text that is how its value is written. -/
def canonical (parse : Text → Option ℤ) (text : Text) : Option ℤ :=
  (parse text).filter fun value => (toString value).toList = text

lemma head_toDigits_ne (n : ℕ) {c : Char} {rest : Text} (h : Nat.toDigits 10 n = c :: rest) :
    c ≠ '+' ∧ c ≠ '-' := by
  have hmem : c ∈ Nat.toDigits 10 n := by
    rw [h]
    exact mem_cons_self
  have hdigit : c.isDigit = true :=
    Nat.isDigit_of_mem_toDigits (b := 10) (n := n) (by decide) (by decide) hmem
  constructor <;> (rintro rfl; cases hdigit)

variable {bound n : ℕ} {digits text : Text}

lemma parseUnsigned_digits (hne : digits ≠ []) (hdigits : ∀ c ∈ digits, c.isDigit = true) :
    parseUnsigned bound digits =
      if Nat.ofDigitChars 10 digits 0 < bound then some (Nat.ofDigitChars 10 digits 0)
      else none := by
  have hall : digits.all Char.isDigit = true := all_eq_true.mpr hdigits
  have hvalue : digits.foldl (fun value c => value * 10 + (c.toNat - '0'.toNat)) 0 =
      Nat.ofDigitChars 10 digits 0 := by
    simp only [Nat.ofDigitChars_eq_foldl, mul_comm]
  unfold parseUnsigned
  obtain ⟨c, rest, rfl⟩ := exists_cons_of_ne_nil hne
  split
  next heq =>
    -- no digit is a sign
    rw [heq] at hdigits
    exact absurd (hdigits '+' mem_cons_self) (by decide)
  simp only [hall, hvalue, isEmpty_cons, Bool.not_true, Bool.or_false, Bool.false_eq_true, if_false]

lemma isDigit_toDigits (n : ℕ) : ∀ c ∈ Nat.toDigits 10 n, c.isDigit = true :=
  fun _ hc => Nat.isDigit_of_mem_toDigits (by decide) (by decide) hc

lemma parseUnsigned_toString (h : n < bound) :
    parseUnsigned bound (toString n).toList = some n := by
  have htext : (toString n).toList = Nat.toDigits 10 n := Nat.toList_repr
  rw [htext, parseUnsigned_digits Nat.toDigits_ne_nil (isDigit_toDigits n),
    Nat.ofDigitChars_ten_toDigits, if_pos h]

/-- Digits without the zeros in front of them are how their number is written. -/
theorem dropWhile_zero_digits (hdigits : ∀ c ∈ digits, c.isDigit = true) :
    digits.dropWhile (· = '0') =
      if Nat.ofDigitChars 10 digits 0 = 0 then []
      else Nat.toDigits 10 (Nat.ofDigitChars 10 digits 0) := by
  induction digits using reverseRecOn with
  | nil => rfl
  | append_singleton digits c ih =>
    have hrest := ih fun d hd => hdigits d (mem_append_left _ hd)
    obtain ⟨hlow, hhigh⟩ := Char.isDigit_iff_toNat.mp (hdigits c (by simp))
    obtain ⟨n, hn, rfl⟩ : ∃ n < 10, c = n.digitChar := by
      have hchar : ∀ n < 10, Char.ofNat ('0'.toNat + n) = n.digitChar := by decide
      have hn : c.toNat - '0'.toNat < 10 := by
        simp only [Char.reduceToNat] at *
        omega
      exact ⟨_, hn, by rw [← hchar _ hn, Nat.add_sub_cancel' hlow, Char.ofNat_toNat]⟩
    rw [Nat.ofDigitChars_append, Nat.ofDigitChars_cons_digitChar_of_lt_ten hn,
      Nat.ofDigitChars_nil, dropWhile_append, hrest]
    by_cases hv : Nat.ofDigitChars 10 digits 0 = 0
    · rw [if_pos hv, hv]
      by_cases hzero : n = 0
      · subst hzero
        rfl
      · simp [hzero, Nat.toDigits_of_lt_base hn]
    · have hvalue : 10 * Nat.ofDigitChars 10 digits 0 + n ≠ 0 := by omega
      rw [if_neg hv, if_neg hvalue, if_neg (by simp [Nat.toDigits_ne_nil]),
        ← Nat.toDigits_append_toDigits (by decide) (by omega) hn, Nat.toDigits_of_lt_base hn]

lemma parseSigned_toString {v : ℤ} (hlow : -(bound : ℤ) ≤ v) (hhigh : v < bound) :
    parseSigned bound (toString v).toList = some v := by
  cases v with
  | ofNat n =>
    have htext : (toString (Int.ofNat n)).toList = (toString n).toList := rfl
    have hdigits : (toString n).toList = Nat.toDigits 10 n := Nat.toList_repr
    have hread : parseUnsigned bound (toString n).toList = some n :=
      parseUnsigned_toString (by simpa using hhigh)
    rw [htext]
    unfold parseSigned
    rw [hdigits] at hread ⊢
    split
    · next heq => exact absurd rfl (head_toDigits_ne n heq).2
    · next heq => exact absurd rfl (head_toDigits_ne n heq).2
    · rw [hread]
      rfl
  | negSucc n =>
    have htext : (toString (Int.negSucc n)).toList = '-' :: (toString (n + 1)).toList := by
      show ("-" ++ Nat.repr (n + 1)).toList = _
      rw [String.toList_append]
      rfl
    have hdigits : (toString (n + 1)).toList = Nat.toDigits 10 (n + 1) := Nat.toList_repr
    have hread : parseUnsigned (bound + 1) (toString (n + 1)).toList = some (n + 1) :=
      parseUnsigned_toString (by omega)
    rw [htext]
    unfold parseSigned
    rw [hdigits] at hread ⊢
    split
    · next heq => exact absurd rfl (head_toDigits_ne (n + 1) (cons.inj heq).2).1
    · next heq =>
      rw [← (cons.inj heq).2, hread]
      rfl
    · next hne => exact (hne _ rfl).elim

lemma canonical_eq_some_iff {parse : Text → Option ℤ} {v : ℤ} :
    canonical parse text = some v ↔ parse text = some v ∧ text = (toString v).toList := by
  rw [canonical, filter_eq_some_iff]
  simp [eq_comm]

lemma parseUnsigned_lt (h : parseUnsigned bound text = some n) : n < bound := by
  unfold parseUnsigned at h
  extract_lets digits at h
  by_cases hshape : (digits.isEmpty || !digits.all Char.isDigit) = true
  · rw [if_pos hshape] at h
    cases h
  · rw [if_neg hshape, ite_none_right_eq_some] at h
    obtain ⟨hlt, heq⟩ := h
    exact some.inj heq ▸ hlt

lemma parseSigned_bounds {v : ℤ} (hbound : 0 < bound) (h : parseSigned bound text = some v) :
    -(bound : ℤ) ≤ v ∧ v < bound := by
  unfold parseSigned at h
  split at h
  · cases h
  all_goals
    simp only [map_eq_some_iff, bind_eq_bind, bind_eq_some_iff, Option.pure_def, some.injEq] at h
    obtain ⟨_, ⟨n, hn, rfl⟩, rfl⟩ := h
    have hlt := parseUnsigned_lt hn
    omega

end Kwiry.Foundations
