import Kwiry.Foundations.Decimal
import Mathlib.Data.Nat.Bitwise
import Mathlib.Order.Compare

/-!
# Fixed-Width Digits and Their Order

Numbers written with a fixed number of digits compare as their texts do. A key in front of the
digits keeps the comparison and separates keys from one another: whatever lies between two texts
behind one key is behind that key.
-/

namespace Kwiry.Foundations

open List

/-! ## §1 Lexicographic comparison -/

section

variable {α β : Type*} [Ord α] [Ord β]

lemma compare_append_left [Std.ReflOrd α] (pre xs ys : List α) :
    compare (pre ++ xs) (pre ++ ys) = compare xs ys := by
  induction pre with
  | nil => rfl
  | cons a pre ih =>
    rw [cons_append, cons_append, List.compare_cons_cons, Std.ReflOrd.compare_self, ih]
    rfl

lemma compare_append_of_length_eq {xs ys : List α} (h : xs.length = ys.length) (s t : List α) :
    compare (xs ++ s) (ys ++ t) = (compare xs ys).then (compare s t) := by
  induction xs generalizing ys with
  | nil =>
    rw [length_nil, eq_comm, length_eq_zero_iff] at h
    subst h
    rfl
  | cons x xs ih =>
    cases ys with
    | nil => cases h
    | cons y ys =>
      rw [cons_append, cons_append, List.compare_cons_cons, List.compare_cons_cons,
        ih (Nat.succ.inj h), Ordering.then_assoc]

lemma compare_map {f : α → β} {xs ys : List α}
    (h : ∀ a ∈ xs, ∀ b ∈ ys, compare (f a) (f b) = compare a b) :
    compare (xs.map f) (ys.map f) = compare xs ys := by
  induction xs generalizing ys with
  | nil => cases ys <;> rfl
  | cons x xs ih =>
    cases ys with
    | nil => rfl
    | cons y ys =>
      have htail := ih fun a ha b hb => h a (mem_cons_of_mem _ ha) b (mem_cons_of_mem _ hb)
      rw [map_cons, map_cons, List.compare_cons_cons, List.compare_cons_cons, htail,
        h x mem_cons_self y mem_cons_self]

/-- Whatever lies between two lists behind one prefix is behind that prefix. -/
theorem isPrefix_of_between [Std.OrientedOrd α] [Std.LawfulEqOrd α] {pre xs ys zs : List α}
    (hlow : (compare (pre ++ xs) zs).isLE) (hhigh : (compare zs (pre ++ ys)).isLE) :
    pre <+: zs := by
  induction pre generalizing zs with
  | nil => exact nil_prefix
  | cons a pre ih =>
    cases zs with
    | nil => cases hlow
    | cons z zs =>
      rw [cons_append, List.compare_cons_cons] at hlow hhigh
      -- the heads bound each other
      have heq : compare a z = .eq := by
        have hswap : compare z a = (compare a z).swap := Std.OrientedOrd.eq_swap
        rw [hswap] at hhigh
        cases hcmp : compare a z with
        | eq => rfl
        | lt => rw [hcmp] at hhigh; cases hhigh
        | gt => rw [hcmp] at hlow; cases hlow
      obtain rfl : a = z := Std.LawfulEqOrd.eq_of_compare heq
      rw [heq] at hlow
      rw [Std.ReflOrd.compare_self] at hhigh
      exact cons_prefix_cons.mpr ⟨rfl, ih hlow hhigh⟩

end

/-! ## §2 Digits -/

/-- The lowest `w` digits of a number, most significant first. -/
def fixedDigits (base : ℕ) : ℕ → ℕ → List ℕ
  | 0, _ => []
  | w + 1, n => fixedDigits base w (n / base) ++ [n % base]

/-- The number its digits stand for. -/
def digitsValue (base : ℕ) (digits : List ℕ) : ℕ :=
  digits.foldl (fun value digit => value * base + digit) 0

@[simp] lemma length_fixedDigits (base w n : ℕ) : (fixedDigits base w n).length = w := by
  induction w generalizing n with
  | zero => rfl
  | succ w ih => simp [fixedDigits, ih]

variable {base n w : ℕ}

lemma fixedDigits_lt {d : ℕ} (hbase : 0 < base) (h : d ∈ fixedDigits base w n) : d < base := by
  induction w generalizing n with
  | zero => cases h
  | succ w ih =>
    rcases mem_append.mp h with h | h
    · exact ih h
    · rw [mem_singleton.mp h]
      exact Nat.mod_lt _ hbase

@[simp] lemma digitsValue_concat (base : ℕ) (digits : List ℕ) (digit : ℕ) :
    digitsValue base (digits ++ [digit]) = digitsValue base digits * base + digit := by
  simp [digitsValue]

lemma value_fixedDigits (h : n < base ^ w) : digitsValue base (fixedDigits base w n) = n := by
  induction w generalizing n with
  | zero =>
    rw [pow_zero, Nat.lt_one_iff] at h
    subst h
    rfl
  | succ w ih =>
    rw [pow_succ] at h
    rw [fixedDigits, digitsValue_concat, ih (Nat.div_lt_of_lt_mul (by rwa [mul_comm])),
      Nat.div_add_mod']

lemma fixedDigits_value {digits : List ℕ} (h : ∀ d ∈ digits, d < base) :
    fixedDigits base digits.length (digitsValue base digits) = digits := by
  induction digits using reverseRecOn with
  | nil => rfl
  | append_singleton digits digit ih =>
    have hdigit : digit < base := h digit (by simp)
    have hrest := ih fun d hd => h d (mem_append_left _ hd)
    rw [length_append, length_singleton, fixedDigits, digitsValue_concat,
      Nat.mul_add_mod', Nat.mod_eq_of_lt hdigit, mul_comm, Nat.mul_add_div (by omega),
      Nat.div_eq_of_lt hdigit, Nat.add_zero, hrest]

lemma digitsValue_lt {digits : List ℕ} (h : ∀ d ∈ digits, d < base) :
    digitsValue base digits < base ^ digits.length := by
  induction digits using reverseRecOn with
  | nil => exact Nat.one_pos
  | append_singleton digits digit ih =>
    have hdigit : digit < base := h digit (by simp)
    have hrest := ih fun d hd => h d (mem_append_left _ hd)
    rw [length_append, length_singleton, digitsValue_concat, pow_succ]
    calc digitsValue base digits * base + digit
        < digitsValue base digits * base + base := by omega
      _ = (digitsValue base digits + 1) * base := by ring
      _ ≤ base ^ digits.length * base := Nat.mul_le_mul_right _ hrest

lemma compare_eq_div_mod (hbase : 0 < base) (n m : ℕ) :
    compare n m = (compare (n / base) (m / base)).then (compare (n % base) (m % base)) := by
  have hn := Nat.div_add_mod n base
  have hm := Nat.div_add_mod m base
  have hnlt := Nat.mod_lt n hbase
  have hmlt := Nat.mod_lt m hbase
  rcases lt_trichotomy (n / base) (m / base) with hlt | heq | hgt
  · have hmul : base * (n / base + 1) ≤ base * (m / base) := Nat.mul_le_mul_left _ hlt
    rw [mul_add, mul_one] at hmul
    rw [compare_lt_iff_lt.mpr hlt, compare_lt_iff_lt.mpr (by omega)]
    rfl
  · rw [compare_eq_iff_eq.mpr heq]
    show compare n m = compare (n % base) (m % base)
    rcases lt_trichotomy (n % base) (m % base) with hlt | hmod | hgt
    · rw [compare_lt_iff_lt.mpr hlt, compare_lt_iff_lt.mpr (by rw [heq] at hn; omega)]
    · rw [compare_eq_iff_eq.mpr hmod, compare_eq_iff_eq.mpr (by rw [heq] at hn; omega)]
    · rw [compare_gt_iff_gt.mpr hgt, compare_gt_iff_gt.mpr (by rw [heq] at hn; omega)]
  · have hmul : base * (m / base + 1) ≤ base * (n / base) := Nat.mul_le_mul_left _ hgt
    rw [mul_add, mul_one] at hmul
    rw [compare_gt_iff_gt.mpr hgt, compare_gt_iff_gt.mpr (by omega)]
    rfl

lemma compare_fixedDigits {m : ℕ} (hbase : 0 < base) (hn : n < base ^ w) (hm : m < base ^ w) :
    compare (fixedDigits base w n) (fixedDigits base w m) = compare n m := by
  induction w generalizing n m with
  | zero =>
    rw [pow_zero, Nat.lt_one_iff] at hn hm
    subst hn hm
    rfl
  | succ w ih =>
    rw [pow_succ, mul_comm] at hn hm
    rw [fixedDigits, fixedDigits, compare_append_of_length_eq (by simp),
      ih (Nat.div_lt_of_lt_mul hn) (Nat.div_lt_of_lt_mul hm), compare_eq_div_mod hbase n m,
      List.compare_cons_cons]
    cases compare (n % base) (m % base) <;> rfl

/-! ## §3 Sign bits -/

lemma xor_two_pow_of_lt (h : n < 2 ^ w) : n ^^^ 2 ^ w = n + 2 ^ w := by
  have hor := Nat.two_pow_add_eq_or_of_lt h 1
  rw [mul_one] at hor
  rw [Nat.add_comm, hor]
  apply Nat.eq_of_testBit_eq
  intro i
  rw [Nat.testBit_xor, Nat.testBit_or, Nat.testBit_two_pow]
  by_cases hi : w = i
  · subst hi
    rw [Nat.testBit_lt_two_pow h]
    simp
  · simp [hi]

lemma xor_two_pow_add (h : n < 2 ^ w) : (n + 2 ^ w) ^^^ 2 ^ w = n := by
  rw [← xor_two_pow_of_lt h, Nat.xor_assoc, Nat.xor_self, Nat.xor_zero]

/-! ## §4 ASCII texts -/

def isAscii (t : Text) : Prop :=
  ∀ c ∈ t, c.toNat < 128

lemma isAscii_append {s t : Text} : isAscii (s ++ t) ↔ isAscii s ∧ isAscii t :=
  forall_mem_append

lemma utf8_of_ascii {t : Text} (h : isAscii t) : utf8 t = t.map fun c => UInt8.ofNat c.toNat := by
  induction t with
  | nil => rfl
  | cons c t ih =>
    have hc : c.toNat < 128 := h c mem_cons_self
    have hrest := ih fun d hd => h d (mem_cons_of_mem _ hd)
    have hchar : String.utf8EncodeChar c = [UInt8.ofNat c.toNat] := by
      rw [String.utf8EncodeChar]
      simp [show c.toNat ≤ 127 by omega]
    rw [utf8, flatMap_cons, hchar, ← utf8, hrest]
    rfl

lemma compare_asciiByte {c d : Char} (hc : c.toNat < 128) (hd : d.toNat < 128) :
    compare (UInt8.ofNat c.toNat) (UInt8.ofNat d.toNat) = compare c d := by
  have hlt : UInt8.ofNat c.toNat < UInt8.ofNat d.toNat ↔ c < d := by
    rw [UInt8.lt_iff_toNat_lt, Char.lt_def, UInt32.lt_iff_toNat_lt]
    simp
    omega
  have heq : UInt8.ofNat c.toNat = UInt8.ofNat d.toNat ↔ c = d := by
    rw [← UInt8.toNat_inj, ← Char.toNat_inj]
    simp
    omega
  show compareOfLessAndEq _ _ = compareOfLessAndEq c d
  simp only [compareOfLessAndEq, hlt, heq]

lemma compare_utf8_of_ascii {s t : Text} (hs : isAscii s) (ht : isAscii t) :
    compare (utf8 s) (utf8 t) = compare s t := by
  rw [utf8_of_ascii hs, utf8_of_ascii ht]
  exact compare_map fun c hc d hd => compare_asciiByte (hs c hc) (ht d hd)

end Kwiry.Foundations
