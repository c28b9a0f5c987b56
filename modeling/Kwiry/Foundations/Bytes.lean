import Mathlib.Data.List.Basic
import Mathlib.Logic.Function.Basic
import Mathlib.Tactic.Ring

/-!
# Byte Strings and Length-Prefixed Framing

The byte vocabulary under every derived identity: little-endian words, the
UTF-8 reading of a character list, and the length-prefixed component that the
hashed preimages are concatenations of.
-/

namespace Kwiry.Foundations

open List

/-- A byte string. -/
abbrev Bytes := List UInt8

/-- A text, as its list of Unicode scalar values. -/
abbrev Text := List Char

-- a named proof, so that membership tests on texts share one instance
instance lawfulBEqText : LawfulBEq Text := inferInstance

instance lawfulBEqTextPair : LawfulBEq (Text × Text) := inferInstance

/-! ## §1 Little-endian words -/

/-- The low `w` bytes of `n`, least significant first. -/
def leBytes : ℕ → ℕ → Bytes
  | 0, _ => []
  | w + 1, n => UInt8.ofNat (n % 256) :: leBytes w (n / 256)

@[simp] lemma length_leBytes (w n : ℕ) : (leBytes w n).length = w := by
  induction w generalizing n with
  | zero => rfl
  | succ w ih => simp [leBytes, ih]

/-- The number a little-endian byte string stands for. -/
def ofLeBytes : Bytes → ℕ
  | [] => 0
  | byte :: rest => byte.toNat + 256 * ofLeBytes rest

lemma toNat_lowByte (n : ℕ) : (UInt8.ofNat (n % 256)).toNat = n % 256 := by
  have hlt : n % 256 < 256 := Nat.mod_lt n (by decide)
  simp

lemma ofLeBytes_leBytes (w n : ℕ) : ofLeBytes (leBytes w n) = n % 256 ^ w := by
  induction w generalizing n with
  | zero => simp [leBytes, ofLeBytes, Nat.mod_one]
  | succ w ih =>
    rw [leBytes, ofLeBytes, toNat_lowByte, ih, pow_succ', Nat.mod_mul]

lemma leBytes_inj {w n m : ℕ} (hn : n < 256 ^ w) (hm : m < 256 ^ w)
    (h : leBytes w n = leBytes w m) : n = m := by
  have hread := congrArg ofLeBytes h
  rwa [ofLeBytes_leBytes, ofLeBytes_leBytes, Nat.mod_eq_of_lt hn, Nat.mod_eq_of_lt hm] at hread

/-! ## §2 UTF-8 -/

/-- The UTF-8 bytes of a text. -/
def utf8 (t : Text) : Bytes :=
  t.flatMap String.utf8EncodeChar

/-- The length of a text in UTF-8 bytes. -/
def utf8Len (t : Text) : ℕ :=
  (t.map Char.utf8Size).sum

@[simp] lemma utf8_nil : utf8 [] = [] := rfl

@[simp] lemma utf8Len_nil : utf8Len [] = 0 := rfl

@[simp] lemma utf8Len_cons (c : Char) (t : Text) : utf8Len (c :: t) = c.utf8Size + utf8Len t := by
  simp [utf8Len]

@[simp] lemma utf8Len_append (s t : Text) : utf8Len (s ++ t) = utf8Len s + utf8Len t := by
  simp [utf8Len]

lemma length_utf8 (t : Text) : (utf8 t).length = utf8Len t := by
  induction t with
  | nil => rfl
  | cons c t ih =>
    simp only [utf8, flatMap_cons, length_append, String.length_utf8EncodeChar,
      utf8Len_cons] at ih ⊢
    rw [ih]

lemma utf8_injective : Function.Injective utf8 := by
  intro s t h
  have hEnc : s.utf8Encode = t.utf8Encode := by
    simp only [utf8Encode]
    exact congrArg toByteArray h
  have hs := utf8Decode?_utf8Encode (l := s)
  have ht := utf8Decode?_utf8Encode (l := t)
  rw [hEnc, ht, Option.some.injEq] at hs
  exact (toArray_inj hs).symm

/-! ## §3 Framed components -/

/-- A component behind its 8-byte little-endian length. -/
def frame (b : Bytes) : Bytes :=
  leBytes 8 b.length ++ b

/-- A framed component splits off the front of a concatenation: whatever follows it, the component
and the rest are both determined. -/
theorem frame_append_inj {a b s t : Bytes} (ha : a.length < 2 ^ 64) (hb : b.length < 2 ^ 64)
    (h : frame a ++ s = frame b ++ t) : a = b ∧ s = t := by
  simp only [frame, append_assoc] at h
  obtain ⟨hlen, hrest⟩ := append_inj h (by simp)
  have hlength : a.length = b.length :=
    leBytes_inj (w := 8) (by simpa using ha) (by simpa using hb) hlen
  exact append_inj hrest hlength

lemma flatMap_frame_inj {xs ys : List Bytes} (hsize : (xs.flatMap frame).length < 2 ^ 64)
    (h : xs.flatMap frame = ys.flatMap frame) : xs = ys := by
  induction xs generalizing ys with
  | nil =>
    cases ys with
    | nil => rfl
    | cons y ys =>
      have hlength := congrArg length h
      simp [frame] at hlength
      omega
  | cons x xs ih =>
    cases ys with
    | nil =>
      have hlength := congrArg length h
      simp [frame] at hlength
    | cons y ys =>
      have hx : x.length < 2 ^ 64 := by
        simp [frame] at hsize
        omega
      have hy : y.length < 2 ^ 64 := by
        rw [h] at hsize
        simp [frame] at hsize
        omega
      rw [flatMap_cons, flatMap_cons] at h
      obtain ⟨rfl, hrest⟩ := frame_append_inj hx hy h
      have hrestsize : (xs.flatMap frame).length < 2 ^ 64 := by
        rw [flatMap_cons, length_append] at hsize
        omega
      rw [ih hrestsize hrest]

/-! ## §4 Ideal hashes -/

/-- A byte string with its two leading bits cleared. -/
def clearLeadingBits : Bytes → Bytes
  | [] => []
  | first :: rest => (first &&& 0x3f) :: rest

/-- A hash taken as an injective function of its preimage, even after its two leading bits are given
up to a tag. The digest is a nonempty byte string; no finite width is imposed, since no injective
function has one. -/
structure IdealHash where
  /-- The digest of a preimage. -/
  digest : Bytes → Bytes
  /-- A digest has a first byte. -/
  digest_ne_nil : ∀ preimage, digest preimage ≠ []
  /-- Preimages never collide on the bits behind the two leading ones. -/
  clear_injective : Function.Injective fun preimage => clearLeadingBits (digest preimage)

lemma IdealHash.injective (H : IdealHash) : Function.Injective H.digest := by
  intro a b h
  exact H.clear_injective (congrArg clearLeadingBits h)

/-- A digest outgrows its preimage by no more than 32 bytes, as one of 32 bytes does not. -/
def IdealHash.Compact (H : IdealHash) : Prop :=
  ∀ preimage, (H.digest preimage).length ≤ preimage.length + 32

/-- The hash that shows its preimage. -/
def IdealHash.transparent : IdealHash where
  digest b := 0 :: b
  digest_ne_nil _ := cons_ne_nil _ _
  clear_injective := by
    intro a b h
    simpa [clearLeadingBits] using h

/-- An ideal hash with one recorded digest. Every other preimage is its own digest behind more zeros
than the recorded digest has bytes. -/
def IdealHash.recording (preimage digest : Bytes) (hdigest : digest ≠ []) : IdealHash where
  digest b := if b = preimage then digest else 0 :: (replicate digest.length 0 ++ b)
  digest_ne_nil b := by
    split
    · exact hdigest
    · exact cons_ne_nil _ _
  clear_injective := by
    have hlength : ∀ b, (clearLeadingBits b).length = b.length := by
      intro b
      cases b <;> rfl
    intro a b h
    simp only at h
    by_cases ha : a = preimage <;> by_cases hb : b = preimage
    · rw [ha, hb]
    · have := congrArg length h
      simp [ha, hb, hlength] at this
      omega
    · have := congrArg length h
      simp [ha, hb, hlength] at this
      omega
    · simpa [ha, hb, clearLeadingBits] using h

end Kwiry.Foundations
