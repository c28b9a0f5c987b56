import Kwiry.Foundations.Digits

/-!
# Doubled Markers

A character with a meaning of its own is written twice where it only stands for itself. Reading
halves it again. The reading goes over the bytes of a text, in which no other character has the
byte of an ASCII character.
-/

namespace Kwiry.Foundations

open List

/-- A text with one character written twice. -/
def double (marker : Char) (t : Text) : Text :=
  t.flatMap fun c => if c = marker then [c, c] else [c]

/-- The bytes of a text with a doubled byte read as one; it has no single one. The flag is whether
one of two has been read. -/
def halveFrom (marker : UInt8) : Bool → Bytes → Option Bytes
  | pending, [] => if pending then none else some []
  | pending, b :: rest =>
    if b = marker then
      if pending then (halveFrom marker false rest).map (b :: ·) else halveFrom marker true rest
    else if pending then none
    else (halveFrom marker false rest).map (b :: ·)

def halve (marker : UInt8) (t : Bytes) : Option Bytes := halveFrom marker false t

section Bytes

lemma utf8_append (s t : Text) : utf8 (s ++ t) = utf8 s ++ utf8 t := flatMap_append

lemma utf8_singleton (c : Char) : utf8 [c] = String.utf8EncodeChar c := by simp [utf8]

lemma utf8_cons (c : Char) (t : Text) : utf8 (c :: t) = utf8 [c] ++ utf8 t :=
  utf8_append [c] t

lemma le_of_mem_utf8 {c : Char} (hc : ¬ c.toNat < 128) {b : UInt8} (hb : b ∈ utf8 [c]) :
    128 ≤ b.toNat := by
  have hnot : ¬ c.val.toNat ≤ 0x7f := fun h => hc (Nat.lt_succ_of_le h)
  rw [utf8_singleton, String.utf8EncodeChar] at hb
  simp only [if_neg hnot] at hb
  split at hb
  · simp only [mem_cons, not_mem_nil, or_false] at hb
    rcases hb with rfl | rfl <;> simp <;> omega
  · split at hb
    · simp only [mem_cons, not_mem_nil, or_false] at hb
      rcases hb with rfl | rfl | rfl <;> simp <;> omega
    · simp only [mem_cons, not_mem_nil, or_false] at hb
      rcases hb with rfl | rfl | rfl | rfl <;> simp <;> omega

lemma utf8_ascii {c : Char} (hc : c.toNat < 128) : utf8 [c] = [UInt8.ofNat c.toNat] :=
  utf8_of_ascii fun d hd => by rwa [mem_singleton.mp hd]

lemma byte_mem_utf8 {marker c : Char} (hmarker : marker.toNat < 128)
    (hmem : UInt8.ofNat marker.toNat ∈ utf8 [c]) : c = marker := by
  have hbyte : (UInt8.ofNat marker.toNat).toNat = marker.toNat := by simp; omega
  by_cases hc : c.toNat < 128
  · rw [utf8_ascii hc, mem_singleton] at hmem
    have hnat := congrArg UInt8.toNat hmem
    rw [hbyte] at hnat
    have hcbyte : (UInt8.ofNat c.toNat).toNat = c.toNat := by simp; omega
    exact Char.toNat_inj.mp (by rw [hnat, hcbyte])
  · have hle := le_of_mem_utf8 hc hmem
    omega

end Bytes

section Halving

variable {marker : UInt8}

lemma halve_append {front : Bytes} (hfront : marker ∉ front) (t : Bytes) :
    halve marker (front ++ t) = (halve marker t).map (front ++ ·) := by
  induction front with
  | nil => simp
  | cons b front ih =>
    obtain ⟨hb, hrest⟩ := not_or.mp (mt mem_cons.mpr hfront)
    rw [cons_append, halve, halveFrom, if_neg (Ne.symm hb), if_neg (by simp), ← halve,
      ih hrest, Option.map_map]
    rfl

lemma halve_pair (t : Bytes) :
    halve marker (marker :: marker :: t) = (halve marker t).map (marker :: ·) := by
  rw [halve, halveFrom, if_pos rfl, if_neg (by simp), halveFrom, if_pos rfl, if_pos rfl, ← halve]

end Halving

lemma halve_double {marker : Char} (hmarker : marker.toNat < 128) (t : Text) :
    halve (UInt8.ofNat marker.toNat) (utf8 (double marker t)) = some (utf8 t) := by
  induction t with
  | nil => rfl
  | cons c t ih =>
    rw [double, flatMap_cons, utf8_append, ← double, utf8_cons c t]
    split
    · next hc =>
      rw [hc, utf8_cons, utf8_ascii hmarker, singleton_append, cons_append,
        singleton_append, halve_pair, ih]
      rfl
    · next hc =>
      rw [halve_append fun hmem => hc (byte_mem_utf8 hmarker hmem), ih]
      rfl

lemma length_double (marker : Char) (t : Text) :
    (double marker t).length = t.length + t.count marker := by
  induction t with
  | nil => rfl
  | cons c t ih =>
    rw [double, flatMap_cons, length_append, ← double, ih, length_cons, count_cons]
    by_cases hc : c = marker
    · rw [if_pos hc, if_pos (by simp [hc])]
      simp only [length_cons, length_nil]
      omega
    · rw [if_neg hc, if_neg (by simp [hc])]
      simp only [length_cons, length_nil]
      omega

lemma double_eq_self_iff {marker : Char} {t : Text} : double marker t = t ↔ marker ∉ t := by
  constructor
  · intro h
    have hlen := congrArg length h
    rw [length_double] at hlen
    exact count_eq_zero.mp (by omega)
  · intro h
    rw [double]
    conv_rhs => rw [← flatMap_singleton' t]
    refine flatMap_congr fun c hc => if_neg ?_
    rintro rfl
    exact h hc

end Kwiry.Foundations
