import Mathlib.Data.Int.Log
import Mathlib.Data.NNRat.Floor
import Mathlib.Data.Rat.Floor
import Mathlib.Tactic.Linarith
import Mathlib.Tactic.NormNum
import Mathlib.Tactic.Positivity

/-!
# Doubles by Their Values

A double is not a number, an infinity, or a sign over a magnitude. Which magnitudes are those of
doubles plays no part here; an operation rounds its exact result to 53 binary digits, ties to even.
-/

namespace Kwiry.Foundations

/-! ## §1 Rounding -/

/-- The nearest natural number, of two the even one. -/
def roundHalfEven (q : ℚ) : ℕ :=
  if 2 * q < 2 * ⌊q⌋₊ + 1 then ⌊q⌋₊
  else if 2 * (⌊q⌋₊ : ℚ) + 1 < 2 * q then ⌊q⌋₊ + 1
  else if ⌊q⌋₊ % 2 = 0 then ⌊q⌋₊
  else ⌊q⌋₊ + 1

/-- The exponent of the last binary digit a double has for a magnitude. -/
def ulpExponent (q : ℚ) : ℤ := max (-1074) (Int.log 2 q - 52)

def roundMagnitude (q : ℚ) : ℚ≥0 :=
  (roundHalfEven (q / 2 ^ ulpExponent q) : ℚ≥0) * 2 ^ ulpExponent q

section Rounding

variable {q : ℚ}

lemma floor_le_roundHalfEven (q : ℚ) : ⌊q⌋₊ ≤ roundHalfEven q := by
  rw [roundHalfEven]
  split_ifs <;> omega

lemma roundHalfEven_le (q : ℚ) : roundHalfEven q ≤ ⌊q⌋₊ + 1 := by
  rw [roundHalfEven]
  split_ifs <;> omega

lemma roundHalfEven_lt_iff (hq : 0 ≤ q) {n : ℕ} (heven : n % 2 = 0) :
    roundHalfEven q < n ↔ 2 * q < 2 * n - 1 := by
  have hfloor := Nat.floor_le hq
  have hceil := Nat.lt_floor_add_one q
  have hle := floor_le_roundHalfEven q
  have hge := roundHalfEven_le q
  rcases Nat.lt_trichotomy (⌊q⌋₊ + 1) n with hlt | heq | hgt
  · refine iff_of_true (by omega) ?_
    have hcast : ((⌊q⌋₊ + 1 + 1 : ℕ) : ℚ) ≤ n := Nat.cast_le.mpr hlt
    push_cast at hcast
    linarith
  · -- the odd number before it is the floor
    have hcast : ((⌊q⌋₊ + 1 : ℕ) : ℚ) = n := congrArg Nat.cast heq
    push_cast at hcast
    have hodd : ¬ ⌊q⌋₊ % 2 = 0 := by omega
    rw [roundHalfEven]
    split_ifs with hbelow habove
    · exact iff_of_true (by omega) (by linarith)
    · exact iff_of_false (by omega) (by linarith)
    · exact iff_of_false (by omega) (by linarith)
  · refine iff_of_false (by omega) ?_
    have hcast : (n : ℚ) ≤ ⌊q⌋₊ := Nat.cast_le.mpr (by omega)
    linarith

lemma roundHalfEven_eq_zero_iff (hq : 0 ≤ q) : roundHalfEven q = 0 ↔ 2 * q ≤ 1 := by
  have hfloor := Nat.floor_le hq
  have hle := floor_le_roundHalfEven q
  rcases Nat.eq_zero_or_pos ⌊q⌋₊ with hzero | hpos
  · rw [roundHalfEven, hzero]
    push_cast
    split_ifs with hbelow habove
    · exact iff_of_true rfl (by linarith)
    · exact iff_of_false (by simp) (by linarith)
    · exact iff_of_true rfl (by linarith)
  · refine iff_of_false (by omega) ?_
    have hcast : ((1 : ℕ) : ℚ) ≤ ⌊q⌋₊ := Nat.cast_le.mpr hpos
    push_cast at hcast
    linarith

lemma two_zpow_pos (e : ℤ) : (0 : ℚ) < 2 ^ e := zpow_pos (by norm_num) e

lemma cast_roundMagnitude (q : ℚ) : ((roundMagnitude q : ℚ≥0) : ℚ) =
    roundHalfEven (q / 2 ^ ulpExponent q) * 2 ^ ulpExponent q := by
  rw [roundMagnitude]
  push_cast
  rfl

lemma le_div_ulp (hq : 0 < q) (hexponent : ulpExponent q ≠ -1074) :
    2 ^ 52 ≤ q / 2 ^ ulpExponent q := by
  have hulp : ulpExponent q = Int.log 2 q - 52 := by
    rw [ulpExponent] at hexponent ⊢
    omega
  rw [le_div_iff₀ (two_zpow_pos _), hulp, ← zpow_natCast, ← zpow_add₀ (by norm_num)]
  have hlog := Int.zpow_log_le_self (b := 2) (by norm_num) hq
  have hsum : ((52 : ℕ) : ℤ) + (Int.log 2 q - 52) = Int.log 2 q := by omega
  rw [hsum]
  exact_mod_cast hlog

lemma roundMagnitude_eq_zero_iff (hq : 0 ≤ q) : roundMagnitude q = 0 ↔ q ≤ 2 ^ (-1075 : ℤ) := by
  have hpos := two_zpow_pos (ulpExponent q)
  have hzero : roundMagnitude q = 0 ↔ roundHalfEven (q / 2 ^ ulpExponent q) = 0 := by
    rw [← NNRat.coe_inj, cast_roundMagnitude, NNRat.coe_zero, mul_eq_zero,
      or_iff_left hpos.ne', Nat.cast_eq_zero]
  rw [hzero, roundHalfEven_eq_zero_iff (div_nonneg hq hpos.le)]
  rcases hq.eq_or_lt with rfl | hlt
  · refine iff_of_true (by norm_num) (two_zpow_pos _).le
  · by_cases hexponent : ulpExponent q = -1074
    · rw [hexponent, ← mul_div_assoc, div_le_one (two_zpow_pos _)]
      have hhalf : (2 : ℚ) ^ (-1074 : ℤ) = 2 * 2 ^ (-1075 : ℤ) := by
        rw [← zpow_one_add₀ (by norm_num)]
        norm_num
      rw [hhalf]
      constructor <;> intro h <;> linarith
    · have hdigits := le_div_ulp hlt hexponent
      refine iff_of_false (by norm_num at hdigits ⊢; linarith) ?_
      rw [not_le]
      rw [le_div_iff₀ hpos] at hdigits
      refine lt_of_lt_of_le ?_ hdigits
      have hleast : (-1074 : ℤ) ≤ ulpExponent q := le_max_left _ _
      calc (2 : ℚ) ^ (-1075 : ℤ) < 2 ^ ulpExponent q :=
            zpow_lt_zpow_right₀ (by norm_num) (by omega)
        _ ≤ 2 ^ 52 * 2 ^ ulpExponent q := by linarith

lemma roundMagnitude_lt_iff (hq : 0 ≤ q) : roundMagnitude q < 2 ^ 53 ↔ q < 2 ^ 53 - 1 / 2 := by
  have hpos := two_zpow_pos (ulpExponent q)
  have hcast : roundMagnitude q < 2 ^ 53 ↔
      (roundHalfEven (q / 2 ^ ulpExponent q) : ℚ) * 2 ^ ulpExponent q < 2 ^ 53 := by
    rw [← NNRat.coe_lt_coe, cast_roundMagnitude]
    push_cast
    rfl
  rw [hcast]
  rcases hq.eq_or_lt with rfl | hlt
  · refine iff_of_true ?_ (by norm_num)
    simp [roundHalfEven]
  by_cases hsmall : q < 2 ^ 52
  · -- the last digit is then less than one
    refine iff_of_true ?_ (by linarith)
    have hlog : Int.log 2 q < 52 := by
      rw [← Int.lt_zpow_iff_log_lt (by norm_num) hlt]
      exact_mod_cast hsmall
    have hulp : (2 : ℚ) ^ ulpExponent q ≤ 2 ^ (0 : ℤ) := by
      apply zpow_le_zpow_right₀ (by norm_num)
      rw [ulpExponent]
      omega
    have hround : (roundHalfEven (q / 2 ^ ulpExponent q) : ℚ) ≤ q / 2 ^ ulpExponent q + 1 := by
      have hle : (roundHalfEven (q / 2 ^ ulpExponent q) : ℚ) ≤
          (⌊q / 2 ^ ulpExponent q⌋₊ + 1 : ℕ) := Nat.cast_le.mpr (roundHalfEven_le _)
      have hfloor := Nat.floor_le (div_nonneg hq hpos.le)
      push_cast at hle
      linarith
    calc (roundHalfEven (q / 2 ^ ulpExponent q) : ℚ) * 2 ^ ulpExponent q
        ≤ (q / 2 ^ ulpExponent q + 1) * 2 ^ ulpExponent q := by
          exact mul_le_mul_of_nonneg_right hround hpos.le
      _ = q + 2 ^ ulpExponent q := by rw [add_mul, div_mul_cancel₀ _ hpos.ne', one_mul]
      _ < 2 ^ 53 := by rw [zpow_zero] at hulp; linarith
  · rw [not_lt] at hsmall
    have hlogle : 52 ≤ Int.log 2 q := by
      rw [← Int.zpow_le_iff_le_log (by norm_num) hlt]
      exact_mod_cast hsmall
    have hulp : ulpExponent q = Int.log 2 q - 52 := by
      rw [ulpExponent]
      omega
    by_cases hlarge : q < 2 ^ 53
    · -- the last digit is the one of units
      have hlog : Int.log 2 q < 53 := by
        rw [← Int.lt_zpow_iff_log_lt (by norm_num) hlt]
        exact_mod_cast hlarge
      have hunit : ulpExponent q = 0 := by omega
      rw [hunit, zpow_zero, div_one, mul_one]
      have hround := roundHalfEven_lt_iff hq (n := 2 ^ 53) (by norm_num)
      have hnat : (roundHalfEven q : ℚ) < 2 ^ 53 ↔ roundHalfEven q < 2 ^ 53 := by
        exact_mod_cast Iff.rfl
      rw [hnat, hround]
      push_cast
      constructor <;> intro h <;> linarith
    · rw [not_lt] at hlarge
      refine iff_of_false ?_ (by linarith)
      have hlog : 53 ≤ Int.log 2 q := by
        rw [← Int.zpow_le_iff_le_log (by norm_num) hlt]
        exact_mod_cast hlarge
      have hdigits := le_div_ulp hlt (by omega)
      have hround : (2 : ℚ) ^ 52 ≤ roundHalfEven (q / 2 ^ ulpExponent q) := by
        have hfloor : 2 ^ 52 ≤ ⌊q / 2 ^ ulpExponent q⌋₊ := Nat.le_floor (by exact_mod_cast hdigits)
        exact_mod_cast hfloor.trans (floor_le_roundHalfEven _)
      have htwo : (2 : ℚ) ^ (1 : ℤ) ≤ 2 ^ ulpExponent q :=
        zpow_le_zpow_right₀ (by norm_num) (by omega)
      rw [not_lt]
      calc (2 : ℚ) ^ 53 = (2 : ℚ) ^ 52 * (2 : ℚ) ^ (1 : ℤ) := by norm_num
        _ ≤ (roundHalfEven (q / 2 ^ ulpExponent q) : ℚ) * 2 ^ ulpExponent q :=
          mul_le_mul hround htwo (two_zpow_pos 1).le (Nat.cast_nonneg _)

end Rounding

/-! ## §2 Numbers -/

/-- A number of JavaScript. -/
inductive Double where
  | nan
  | infinite (negative : Bool)
  | finite (negative : Bool) (magnitude : ℚ≥0)
deriving DecidableEq

namespace Double

/-- The nearest double, or an infinity beyond the largest one. -/
def round (negative : Bool) (magnitude : ℚ≥0) : Double :=
  if roundMagnitude magnitude < 2 ^ 1024 then .finite negative (roundMagnitude magnitude)
  else .infinite negative

/-- Division by a positive integer. -/
def div (x : Double) (n : ℕ) : Double :=
  match x with
  | .nan => .nan
  | .infinite negative => .infinite negative
  | .finite negative magnitude => round negative (magnitude / n)

/-- `Math.floor`: downwards, which for a negative number is away from zero. -/
def floor : Double → Double
  | .nan => .nan
  | .infinite negative => .infinite negative
  | .finite true magnitude => .finite true ⌈magnitude⌉₊
  | .finite false magnitude => .finite false ⌊magnitude⌋₊

def maxSafe : ℕ := 2 ^ 53 - 1

/-- `Number.isSafeInteger(value) && value >= 0`; a negative zero is one. -/
def isNonNegativeSafeInteger : Double → Bool
  | .finite negative magnitude =>
    (magnitude.den = 1 ∧ magnitude ≤ maxSafe ∧ (negative = false ∨ magnitude = 0) : Bool)
  | _ => false

lemma round_eq {negative : Bool} {magnitude : ℚ≥0} (h : roundMagnitude magnitude < 2 ^ 53) :
    round negative magnitude = .finite negative (roundMagnitude magnitude) := by
  have hlt : roundMagnitude magnitude < 2 ^ 1024 :=
    h.trans_le (pow_le_pow_right₀ (by norm_num) (by norm_num))
  rw [round, if_pos hlt]

lemma floor_round_negative (magnitude : ℚ≥0) :
    (round true magnitude).floor.isNonNegativeSafeInteger = true ↔
      (magnitude : ℚ) ≤ 2 ^ (-1075 : ℤ) := by
  rw [← roundMagnitude_eq_zero_iff magnitude.coe_nonneg]
  constructor
  · intro h
    rw [round] at h
    split at h
    · simp only [floor, isNonNegativeSafeInteger] at h
      simpa using (of_decide_eq_true h).2.2
    · cases h
  · intro h
    rw [round_eq (by rw [h]; norm_num), h]
    simp [floor, isNonNegativeSafeInteger]

lemma floor_round_positive (magnitude : ℚ≥0) :
    (round false magnitude).floor.isNonNegativeSafeInteger = true ↔
      (magnitude : ℚ) < 2 ^ 53 - 1 / 2 := by
  rw [← roundMagnitude_lt_iff magnitude.coe_nonneg]
  have hsafe : ∀ v : ℚ≥0, (Double.finite false v).floor.isNonNegativeSafeInteger = true ↔
      v < 2 ^ 53 := by
    intro v
    have hfloor : ⌊v⌋₊ < 2 ^ 53 ↔ v < 2 ^ 53 := by
      rw [Nat.floor_lt' (by norm_num)]
      norm_num
    rw [← hfloor]
    simp only [floor, isNonNegativeSafeInteger, maxSafe, NNRat.den_natCast, Nat.cast_le,
      true_or, and_true, true_and, decide_eq_true_eq]
    omega
  constructor
  · intro h
    rw [round] at h
    split at h
    · exact (hsafe _).mp h
    · cases h
  · intro h
    rw [round_eq h]
    exact (hsafe _).mpr h

/-- The floor of a quotient is a nonnegative safe integer where the exact quotient rounds to nothing
below zero, and to less than 2⁵³. -/
theorem floor_div_safe_iff (x : Double) {n : ℕ} (hn : 0 < n) :
    (x.div n).floor.isNonNegativeSafeInteger = true ↔
      ∃ negative magnitude, x = .finite negative magnitude ∧
        if negative then (magnitude : ℚ) ≤ n * 2 ^ (-1075 : ℤ)
        else (magnitude : ℚ) < n * (2 ^ 53 - 1 / 2) := by
  have hpos : (0 : ℚ) < n := Nat.cast_pos.mpr hn
  cases x with
  | nan | infinite negative => simp [div, floor, isNonNegativeSafeInteger]
  | finite negative magnitude =>
    have hquotient : ((magnitude / n : ℚ≥0) : ℚ) = (magnitude : ℚ) / n := by push_cast; rfl
    have hiff : ((round negative (magnitude / n)).floor.isNonNegativeSafeInteger = true) ↔
        if negative then (magnitude : ℚ) ≤ n * 2 ^ (-1075 : ℤ)
        else (magnitude : ℚ) < n * (2 ^ 53 - 1 / 2) := by
      cases negative with
      | true => rw [floor_round_negative, hquotient, div_le_iff₀ hpos, if_pos rfl, mul_comm]
      | false =>
        rw [floor_round_positive, hquotient, div_lt_iff₀ hpos, if_neg (by simp), mul_comm]
    rw [div, hiff]
    constructor
    · exact fun h => ⟨negative, magnitude, rfl, h⟩
    · intro h
      obtain ⟨_, _, heq, h⟩ := h
      cases heq
      exact h

end Double

end Kwiry.Foundations
