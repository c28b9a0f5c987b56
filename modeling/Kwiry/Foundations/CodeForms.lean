import Kwiry.Foundations.Bytes

/-!
# Multi-Byte Codes

The byte structure of a multi-byte encoding is a list of forms, which say of each byte of a code
where it lies. A decoder collects bytes until they are a code, and stops at the first error; what it
accepts is a sequence of codes, each of which it decodes to the same characters on its own.
-/

namespace Kwiry.Foundations

/-- For each byte of a code, the ranges it may lie in. -/
abbrev CodeForm := List (List (UInt8 × UInt8))

def inRanges (ranges : List (UInt8 × UInt8)) (byte : UInt8) : Bool :=
  ranges.any fun range => range.1 ≤ byte && byte ≤ range.2

def begins : CodeForm → Bytes → Bool
  | _, [] => true
  | [], _ :: _ => false
  | ranges :: form, byte :: bytes => inRanges ranges byte && begins form bytes

def isCode (forms : List CodeForm) (bytes : Bytes) : Bool :=
  forms.any fun form => form.length = bytes.length && begins form bytes

def isPartial (forms : List CodeForm) (bytes : Bytes) : Bool :=
  forms.any fun form => bytes.length < form.length && begins form bytes

variable {forms : List CodeForm} {index : Bytes → Option Text}

/-- What bytes decode to behind the bytes of a code that is not complete yet, if there is no error;
`index` has the characters of the codes that have some. -/
def decodeCodes (forms : List CodeForm) (index : Bytes → Option Text) :
    Bytes → Bytes → Option Text
  | [], [] => some []
  | _ :: _, [] => none
  | pending, byte :: rest =>
    let code := pending ++ [byte]
    if isCode forms code then do
      let chars ← index code
      let decoded ← decodeCodes forms index [] rest
      return chars ++ decoded
    else if isPartial forms code then decodeCodes forms index code rest
    else none

/-- The first code, and what is behind it. -/
theorem decodeCodes_first {pending bytes : Bytes} {chars : Text}
    (h : decodeCodes forms index pending bytes = some chars) (hne : pending ++ bytes ≠ []) :
    ∃ front rest decoded rest', bytes = front ++ rest ∧ front ≠ [] ∧ chars = decoded ++ rest' ∧
      isCode forms (pending ++ front) = true ∧ index (pending ++ front) = some decoded ∧
      decodeCodes forms index pending front = some decoded ∧
      decodeCodes forms index [] rest = some rest' := by
  induction bytes generalizing pending with
  | nil =>
    cases pending with
    | nil => exact absurd rfl hne
    | cons byte pending => cases h
  | cons byte rest ih =>
    rw [decodeCodes] at h
    by_cases hcode : isCode forms (pending ++ [byte]) = true
    · simp only [if_pos hcode, Option.bind_eq_bind, Option.bind_eq_some_iff] at h
      obtain ⟨decoded, hindex, rest', hrest, hchars⟩ := h
      refine ⟨[byte], rest, decoded, rest', rfl, by simp, (Option.some.inj hchars).symm, hcode,
        hindex, ?_, hrest⟩
      simp [decodeCodes, hcode, hindex]
    · by_cases hpart : isPartial forms (pending ++ [byte]) = true
      · simp only [if_neg hcode, if_pos hpart] at h
        obtain ⟨front, rest', decoded, chars', rfl, -, hchars, hfront, hindex, hone, hrest⟩ :=
          ih h (by simp)
        rw [List.append_assoc, List.singleton_append] at hfront hindex
        refine ⟨byte :: front, rest', decoded, chars', rfl, by simp, hchars, hfront, hindex, ?_,
          hrest⟩
        simp [decodeCodes, hcode, hpart, hone]
      · simp [if_neg hcode, if_neg hpart] at h

/-- What holds of the empty string and of a code before a string holds of what is decoded. -/
theorem decodeCodes_induction {P : Bytes → Text → Prop} (nil : P [] [])
    (code : ∀ code rest decoded chars, isCode forms code = true → index code = some decoded →
      decodeCodes forms index [] code = some decoded → P rest chars →
      P (code ++ rest) (decoded ++ chars)) {bytes : Bytes} {chars : Text}
    (h : decodeCodes forms index [] bytes = some chars) : P bytes chars := by
  induction hlength : bytes.length using Nat.strong_induction_on generalizing bytes chars with
  | _ n ih =>
    cases bytes with
    | nil =>
      cases h
      exact nil
    | cons byte bytes =>
      obtain ⟨front, rest, decoded, chars', hbytes, hne, rfl, hcode, hindex, hone, hrest⟩ :=
        decodeCodes_first h (by simp)
      have hlt : rest.length < n := by
        have hpos := List.length_pos_iff.mpr hne
        rw [← hlength, hbytes, List.length_append]
        omega
      rw [hbytes]
      exact code front rest decoded chars' hcode hindex hone (ih _ hlt hrest rfl)

end Kwiry.Foundations
