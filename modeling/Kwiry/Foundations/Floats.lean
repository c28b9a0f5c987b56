import Mathlib.Data.Nat.Notation
import Mathlib.Tactic.Ring
import Mathlib.Order.Basic

/-!
# Binary Floats by Their Bits

A binary float of a given width is a sign bit over a magnitude. Two orders of finite floats are
read off the bits: the total order, in which every bit pattern has its own place, and the
numeric order, in which the two zeros are equal.
-/

namespace Kwiry.Foundations

/-- The place of a bit pattern in the total order of floats of the given width. -/
def totalKey (width bits : ℕ) : ℤ :=
  if bits < 2 ^ (width - 1) then bits else 2 ^ (width - 1) - 1 - bits

/-- The place of a finite float of the given width in the numeric order. -/
def numericKey (width bits : ℕ) : ℤ :=
  if bits < 2 ^ (width - 1) then bits else 2 ^ (width - 1) - bits

lemma totalKey_injective (width : ℕ) : Function.Injective (totalKey width) := by
  intro a b h
  unfold totalKey at h
  have hpow : ((2 ^ (width - 1) : ℕ) : ℤ) = 2 ^ (width - 1) := by push_cast; rfl
  split at h <;> split at h <;> omega

/-- Whether an exponent is below the one of infinities and NaNs. -/
def isFiniteBits (exponentBits mantissaBits bits : ℕ) : Bool :=
  bits / 2 ^ mantissaBits % 2 ^ exponentBits ≠ 2 ^ exponentBits - 1

/-- A single-precision float. -/
structure F32 where
  bits : UInt32
  deriving DecidableEq

namespace F32

def isFinite (x : F32) : Bool :=
  isFiniteBits 8 23 x.bits.toNat

/-- The total order of `total_cmp`. -/
def totalCmp : F32 → F32 → Ordering :=
  compareOn fun x => totalKey 32 x.bits.toNat

instance : Std.TransCmp totalCmp :=
  inferInstanceAs (Std.TransCmp (compareOn fun x : F32 => totalKey 32 x.bits.toNat))

instance : Std.LawfulEqCmp totalCmp where
  eq_of_compare {a b} h := by
    have hkey := totalKey_injective 32 (Std.LawfulEqOrd.eq_of_compare (α := ℤ) h)
    cases a
    cases b
    simpa [UInt32.toNat_inj] using hkey

end F32

end Kwiry.Foundations
