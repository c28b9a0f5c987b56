import Mathlib.Data.List.Basic

/-!
# Code Units

A string of a language whose strings are UTF-16 code units. A surrogate that stands alone is a code
point of its own, so every list of units is a string.
-/

namespace Kwiry.Foundations

open List

def isHighSurrogate (unit : UInt16) : Bool :=
  0xd800 ≤ unit ∧ unit ≤ 0xdbff

def isLowSurrogate (unit : UInt16) : Bool :=
  0xdc00 ≤ unit ∧ unit ≤ 0xdfff

inductive CodePoint where
  | scalar (c : Char)
  | surrogate (unit : UInt16)
  deriving DecidableEq

def CodePoint.units : CodePoint → List UInt16
  | .scalar c =>
    if c.toNat < 0x10000 then [c.toNat.toUInt16]
    else [(0xd800 + (c.toNat - 0x10000) / 0x400).toUInt16,
      (0xdc00 + (c.toNat - 0x10000) % 0x400).toUInt16]
  | .surrogate unit => [unit]

/-- The code point of a character. -/
def codePointOf : List UInt16 → CodePoint
  | high :: low :: _ =>
    .scalar (Char.ofNat (0x10000 + (high.toNat - 0xd800) * 0x400 + (low.toNat - 0xdc00)))
  | [unit] =>
    if isHighSurrogate unit ∨ isLowSurrogate unit then .surrogate unit
    else .scalar (Char.ofNat unit.toNat)
  | [] => .scalar (Char.ofNat 0)

/-- A string cut into its code points. -/
def characters : List UInt16 → List (List UInt16)
  | [] => []
  | [unit] => [[unit]]
  | high :: low :: rest =>
    if isHighSurrogate high ∧ isLowSurrogate low then [high, low] :: characters rest
    else [high] :: characters (low :: rest)

def codePoints (text : List UInt16) : List CodePoint :=
  (characters text).map codePointOf

def unitsOf (points : List CodePoint) : List UInt16 :=
  points.flatMap CodePoint.units

lemma flatten_characters (text : List UInt16) : (characters text).flatten = text := by
  fun_induction characters text with
  | case1 => rfl
  | case2 unit => rfl
  | case3 high low rest hpair ih | case4 high low rest hpair ih => rw [flatten_cons, ih]; rfl

variable {character text : List UInt16}

lemma ne_nil_of_mem_characters (h : character ∈ characters text) : character ≠ [] := by
  fun_induction characters text with
  | case1 => cases h
  | case2 unit =>
    cases mem_singleton.mp h
    exact cons_ne_nil _ _
  | case3 high low rest hpair ih | case4 high low rest hpair ih =>
    rcases mem_cons.mp h with rfl | hrest
    · exact cons_ne_nil _ _
    · exact ih hrest

lemma characters_tail {rest : List (List UInt16)} (h : characters text = character :: rest) :
    characters rest.flatten = rest := by
  fun_cases characters text with
  | case1 => cases h
  | case2 unit =>
    cases h
    rfl
  | case3 high low rest' hpair =>
    rw [characters, if_pos hpair] at h
    cases h
    rw [flatten_characters]
  | case4 high low rest' hpair =>
    rw [characters, if_neg hpair] at h
    cases h
    rw [flatten_characters]

variable {back front : List (List UInt16)}

lemma characters_drop (h : characters text = front ++ back) : characters back.flatten = back := by
  induction front generalizing text with
  | nil =>
    rw [nil_append] at h
    rw [← h, flatten_characters]
  | cons character front ih => exact ih (characters_tail h)

lemma characters_take (h : characters text = front ++ back) :
    characters front.flatten = front := by
  induction front generalizing text with
  | nil => rfl
  | cons character front ih =>
    have hrest := ih (characters_tail h)
    fun_cases characters text with
    | case1 => cases h
    | case2 unit =>
      obtain ⟨rfl, hnil⟩ := cons.inj h
      obtain ⟨rfl, -⟩ := append_eq_nil_iff.mp hnil.symm
      rfl
    | case3 high low rest hpair =>
      rw [characters, if_pos hpair] at h
      obtain ⟨rfl, -⟩ := cons.inj h
      rw [flatten_cons, cons_append, cons_append, nil_append, characters, if_pos hpair, hrest]
    | case4 high low rest hpair =>
      rw [characters, if_neg hpair] at h
      obtain ⟨rfl, hfront⟩ := cons.inj h
      have hfront : characters (low :: rest) = front ++ back := hfront
      cases front with
      | nil => rfl
      | cons next front =>
        -- the next character begins with the unit that makes no pair with this one
        have hflatten := congrArg flatten hfront
        rw [flatten_characters, cons_append, flatten_cons] at hflatten
        have hne : next ≠ [] :=
          ne_nil_of_mem_characters (hfront ▸ mem_append_left _ mem_cons_self)
        obtain ⟨unit, units, rfl⟩ := exists_cons_of_ne_nil hne
        rw [cons_append] at hflatten
        obtain ⟨rfl, -⟩ := cons.inj hflatten
        rw [flatten_cons, flatten_cons] at *
        simp only [cons_append, nil_append] at hrest ⊢
        rw [characters, if_neg hpair, hrest]

lemma characters_infix {middle : List (List UInt16)}
    (h : characters text = front ++ middle ++ back) : characters middle.flatten = middle := by
  rw [append_assoc] at h
  exact characters_take (characters_drop h)

lemma characters_cons_of_not_high {unit : UInt16} (h : isHighSurrogate unit = false)
    (rest : List UInt16) : characters (unit :: rest) = [unit] :: characters rest := by
  cases rest with
  | nil => rfl
  | cons low rest => rw [characters, if_neg (by simp [h])]

lemma toNat_charOfNat {n : ℕ} (h : n.isValidChar) : (Char.ofNat n).toNat = n := by
  rw [Char.ofNat, dif_pos h]
  rfl

lemma units_codePointOf_single (unit : UInt16) : (codePointOf [unit]).units = [unit] := by
  rw [codePointOf]
  by_cases h : isHighSurrogate unit = true ∨ isLowSurrogate unit = true
  · rw [if_pos h]
    rfl
  · have hvalid : unit.toNat.isValidChar := by
      have hlt := unit.toNat_lt
      simp [isHighSurrogate, isLowSurrogate, UInt16.le_iff_toNat_le] at h
      unfold Nat.isValidChar
      omega
    rw [if_neg h, CodePoint.units, toNat_charOfNat hvalid, if_pos unit.toNat_lt]
    simp

lemma units_codePointOf_pair {high low : UInt16} (hhigh : isHighSurrogate high = true)
    (hlow : isLowSurrogate low = true) : (codePointOf [high, low]).units = [high, low] := by
  simp [isHighSurrogate, isLowSurrogate, UInt16.le_iff_toNat_le] at hhigh hlow
  have hvalid : (0x10000 + (high.toNat - 0xd800) * 0x400 + (low.toNat - 0xdc00)).isValidChar := by
    unfold Nat.isValidChar
    omega
  rw [codePointOf, CodePoint.units, toNat_charOfNat hvalid, if_neg (by omega)]
  have hfirst : 0xd800 + (0x10000 + (high.toNat - 0xd800) * 0x400 + (low.toNat - 0xdc00) -
      0x10000) / 0x400 = high.toNat := by omega
  have hsecond : 0xdc00 + (0x10000 + (high.toNat - 0xd800) * 0x400 + (low.toNat - 0xdc00) -
      0x10000) % 0x400 = low.toNat := by omega
  rw [hfirst, hsecond]
  simp

/-- The code points of a string say which string it is. -/
theorem unitsOf_codePoints (text : List UInt16) : unitsOf (codePoints text) = text := by
  unfold unitsOf codePoints
  rw [flatMap_map]
  fun_induction characters text with
  | case1 => rfl
  | case2 unit => simp [units_codePointOf_single]
  | case3 high low rest hpair ih =>
    rw [flatMap_cons, ih, units_codePointOf_pair hpair.1 hpair.2]
    rfl
  | case4 high low rest hpair ih =>
    rw [flatMap_cons, ih, units_codePointOf_single]
    rfl

end Kwiry.Foundations
