import Kwiry.Foundations.CodeUnits
import Kwiry.Foundations.Digits
import Kwiry.Foundations.Folds
import Kwiry.Foundations.Unicode
import Kwiry.Plugin.Pending

/-!
# Exact Identifier Tokens

`exact-identifier-token.ts`: an identifier's UTF-8 bytes are written in base 32, through a buffer of
bits that no digit has been made of yet. What the digits and the buffer stand for is what the bytes
read so far stand for; the zeros that fill the last digit are told from the number of digits.
-/

namespace Kwiry.Plugin

open Foundations List

/-! ## §1 The encoder -/

def base32Alphabet : Text := "abcdefghijklmnopqrstuvwxyz234567".toList

/-- `BASE32_ALPHABET` at a digit, which is below 32. -/
def base32Digit (digit : ℕ) : Char :=
  base32Alphabet.getD digit ' '

/-- The variables of the loop. The operators on `buffer` work on 32 bits, and a shift on the low
five bits of its count. -/
structure TokenState where
  token : Text
  buffer : UInt32
  bits : ℕ

namespace TokenState

def start : TokenState :=
  ⟨['z'], 0, 0⟩

def pushByte (state : TokenState) (byte : UInt8) : TokenState :=
  { state with buffer := (state.buffer <<< 8) ||| byte.toUInt32, bits := state.bits + 8 }

/-- One turn of the inner loop, which leaves `bits` bits. -/
def emitDigit (token : Text) (buffer : UInt32) (bits : ℕ) : TokenState where
  token := token ++ [base32Digit ((buffer >>> UInt32.ofNat bits) &&& 31).toNat]
  buffer := buffer &&& if bits = 0 then 0 else ((1 : UInt32) <<< UInt32.ofNat bits) - 1
  bits := bits

/-- The inner loop. -/
def drain (token : Text) (buffer : UInt32) : ℕ → TokenState
  | bits + 5 =>
    let state := emitDigit token buffer bits
    drain state.token state.buffer bits
  | bits => ⟨token, buffer, bits⟩

def encodeByte (state : TokenState) (byte : UInt8) : TokenState :=
  let pushed := state.pushByte byte
  drain pushed.token pushed.buffer pushed.bits

def encodeBytes (bytes : Bytes) : TokenState :=
  bytes.foldl encodeByte start

def finish (state : TokenState) : Text :=
  if 0 < state.bits then
    state.token ++ [base32Digit ((state.buffer <<< UInt32.ofNat (5 - state.bits)) &&& 31).toNat]
  else state.token

end TokenState

open TokenState

def isUnicodeScalarString : JsString → Bool
  | [] => true
  | code :: rest =>
    if code < 0xd800 ∨ code > 0xdfff then isUnicodeScalarString rest
    else if code > 0xdbff then false
    else
      match rest with
      | [] => false
      | low :: rest => if low < 0xdc00 ∨ low > 0xdfff then false else isUnicodeScalarString rest

/-- What a text encoder writes for a code point: a surrogate that stands alone is replaced. -/
def scalarValue : CodePoint → Char
  | .scalar c => c
  | .surrogate _ => Char.ofNat 0xfffd

def utf8Encode (text : JsString) : Bytes :=
  utf8 ((codePoints text).map scalarValue)

def encodeExactIdentifierToken (identifier : JsString) : Except String Text :=
  if identifier = [] ∨ isUnicodeScalarString identifier = false then
    .error "exact identifier must be a nonempty Unicode scalar value"
  else .ok (encodeBytes (utf8Encode identifier)).finish

def encodeExactIdentifierMatch (identifiers : List JsString) : Except String Text := do
  let tokens ← identifiers.mapM encodeExactIdentifierToken
  return joinWith [' '] tokens

/-! ## §2 The buffer -/

/-- The states the two loops go through, with the bytes read so far. -/
inductive Visits : Bytes → TokenState → Prop where
  | start : Visits [] .start
  | byte {front : Bytes} {state : TokenState} (byte : UInt8) :
      Visits front state → state.bits < 5 → Visits (front ++ [byte]) (state.pushByte byte)
  | digit {front : Bytes} {token : Text} {buffer : UInt32} {bits : ℕ} :
      Visits front ⟨token, buffer, bits + 5⟩ →
      Visits front (emitDigit token buffer bits)

lemma visits_drain {front : Bytes} {token : Text} {buffer : UInt32} {bits : ℕ}
    (h : Visits front ⟨token, buffer, bits⟩) :
    Visits front (TokenState.drain token buffer bits) ∧
      (TokenState.drain token buffer bits).bits < 5 := by
  fun_induction TokenState.drain token buffer bits with
  | case1 token buffer bits state ih => exact ih h.digit
  | case2 token buffer bits hsmall =>
    refine ⟨h, ?_⟩
    by_contra hge
    exact hsmall (bits - 5) (Nat.sub_add_cancel (Nat.le_of_not_lt hge)).symm

lemma visits_encodeBytes (bytes : Bytes) :
    Visits bytes (encodeBytes bytes) ∧ (encodeBytes bytes).bits < 5 := by
  induction bytes using reverseRecOn with
  | nil => exact ⟨.start, by decide⟩
  | append_singleton bytes byte ih =>
    rw [encodeBytes, foldl_append]
    exact visits_drain (ih.1.byte byte ih.2)

/-- The digits written and the bits in the buffer stand for what the bytes stand for. -/
structure Carries (front : Bytes) (state : TokenState) (digits : List ℕ) : Prop where
  token : state.token = 'z' :: digits.map base32Digit
  digits_lt : ∀ d ∈ digits, d < 32
  value : digitsValue 256 (front.map UInt8.toNat) =
    digitsValue 32 digits * 2 ^ state.bits + state.buffer.toNat
  buffer_lt : state.buffer.toNat < 2 ^ state.bits
  length : 8 * front.length = 5 * digits.length + state.bits
  bits_le : state.bits ≤ 12

lemma toNat_shiftLeft_ofNat (buffer : UInt32) {n : ℕ} (hn : n < 32)
    (hfit : buffer.toNat * 2 ^ n < 2 ^ 32) :
    (buffer <<< UInt32.ofNat n).toNat = buffer.toNat * 2 ^ n := by
  rw [UInt32.toNat_shiftLeft, UInt32.toNat_ofNat_of_lt' (hn.trans (by decide)),
    Nat.mod_eq_of_lt hn, Nat.shiftLeft_eq, Nat.mod_eq_of_lt hfit]

lemma toNat_and_31 (buffer : UInt32) : (buffer &&& 31).toNat = buffer.toNat % 32 := by
  rw [UInt32.toNat_and]
  exact Nat.and_two_pow_sub_one_eq_mod _ 5

variable {state : TokenState}

lemma toNat_pushByte (byte : UInt8) (hbuffer : state.buffer.toNat < 2 ^ 24) :
    (state.pushByte byte).buffer.toNat = state.buffer.toNat * 256 + byte.toNat := by
  have hshift : (state.buffer <<< 8).toNat = state.buffer.toNat <<< 8 := by
    rw [Nat.shiftLeft_eq]
    exact toNat_shiftLeft_ofNat state.buffer (by decide)
      (Nat.mul_lt_mul_of_pos_right hbuffer (by decide))
  show (state.buffer <<< 8 ||| byte.toUInt32).toNat = _
  rw [UInt32.toNat_or, hshift, UInt8.toNat_toUInt32,
    ← Nat.shiftLeft_add_eq_or_of_lt byte.toNat_lt, Nat.shiftLeft_eq]

lemma toNat_emitDigit (token : Text) {buffer : UInt32} {bits : ℕ} (hbits : bits < 32)
    (hbuffer : buffer.toNat < 2 ^ (bits + 5)) :
    (emitDigit token buffer bits).token =
        token ++ [base32Digit (buffer.toNat / 2 ^ bits)] ∧
      (emitDigit token buffer bits).buffer.toNat = buffer.toNat % 2 ^ bits := by
  have hdigit : buffer.toNat / 2 ^ bits < 32 := by
    rw [pow_add, mul_comm] at hbuffer
    exact Nat.div_lt_of_lt_mul (by rwa [mul_comm])
  have hright : (buffer >>> UInt32.ofNat bits).toNat = buffer.toNat / 2 ^ bits := by
    rw [UInt32.toNat_shiftRight, UInt32.toNat_ofNat_of_lt' (hbits.trans (by decide)),
      Nat.mod_eq_of_lt hbits, Nat.shiftRight_eq_div_pow]
  refine ⟨?_, ?_⟩
  · rw [emitDigit, toNat_and_31, hright, Nat.mod_eq_of_lt hdigit]
  · show (buffer &&& if bits = 0 then 0 else _).toNat = _
    have hmask : (((1 : UInt32) <<< UInt32.ofNat bits) - 1).toNat = 2 ^ bits - 1 := by
      have hone : ((1 : UInt32) <<< UInt32.ofNat bits).toNat = 2 ^ bits := by
        have hpow : 2 ^ bits < 2 ^ 32 := Nat.pow_lt_pow_right (by decide) hbits
        rw [toNat_shiftLeft_ofNat _ hbits (by simpa using hpow)]
        simp
      have hle : (1 : UInt32) ≤ (1 : UInt32) <<< UInt32.ofNat bits := by
        rw [UInt32.le_iff_toNat_le, hone]
        exact Nat.one_le_two_pow
      rw [UInt32.toNat_sub_of_le _ _ hle, hone]
      rfl
    split
    next hzero => simp [hzero, Nat.mod_one]
    next => rw [UInt32.toNat_and, hmask, Nat.and_two_pow_sub_one_eq_mod]

variable {bytes : Bytes}

lemma Visits.carries (h : Visits bytes state) : ∃ digits, Carries bytes state digits := by
  induction h with
  | start => exact ⟨[], rfl, by simp, rfl, by decide, rfl, by decide⟩
  | @byte front state byte _ hbits ih =>
    obtain ⟨digits, ih⟩ := ih
    have hpow : 2 ^ state.bits ≤ 2 ^ 4 := Nat.pow_le_pow_right (by decide) (by omega)
    have hbyte := byte.toNat_lt
    have hpush := toNat_pushByte byte (ih.buffer_lt.trans_le (hpow.trans (by decide)))
    refine ⟨digits, ih.token, ih.digits_lt, ?_, ?_, ?_, ?_⟩
    · rw [map_append, map_cons, map_nil, digitsValue_concat, ih.value, hpush]
      show _ = _ * 2 ^ (state.bits + 8) + _
      ring
    · rw [hpush]
      show _ < 2 ^ (state.bits + 8)
      rw [pow_add]
      have := ih.buffer_lt
      omega
    · have := ih.length
      rw [length_append, length_singleton]
      show _ = _ + (state.bits + 8)
      omega
    · show state.bits + 8 ≤ 12
      omega
  | @digit front token buffer bits _ ih =>
    obtain ⟨digits, htoken, hdigits, hvalue, hbuffer, hlength, hbits⟩ := ih
    simp only at htoken hvalue hbuffer hlength hbits
    obtain ⟨htoken', hbuffer'⟩ := toNat_emitDigit token (by omega) hbuffer
    have hlt : buffer.toNat / 2 ^ bits < 32 :=
      Nat.div_lt_of_lt_mul (by rwa [pow_add] at hbuffer)
    refine ⟨digits ++ [buffer.toNat / 2 ^ bits], ?_, ?_, ?_, ?_, ?_, ?_⟩
    · rw [htoken', htoken, map_append, map_cons, map_nil, cons_append]
    · exact forall_mem_append.mpr ⟨hdigits, forall_mem_singleton.mpr hlt⟩
    · have hpow : digitsValue 32 digits * 2 ^ (bits + 5) = digitsValue 32 digits * 32 * 2 ^ bits := by
        ring
      rw [hvalue, hpow, digitsValue_concat, hbuffer', emitDigit, add_mul, add_assoc,
        Nat.div_add_mod']
    · rw [hbuffer']
      exact Nat.mod_lt _ (Nat.two_pow_pos bits)
    · rw [hlength, length_append, length_singleton]
      show _ + (bits + 5) = _ + bits
      omega
    · exact Nat.le_of_add_right_le hbits

/-! ## §3 The token -/

variable {digits : List ℕ}

lemma Carries.fill_lt (h : Carries bytes state digits) (hbits : state.bits < 5) :
    state.buffer.toNat * 2 ^ (5 - state.bits) < 2 ^ 5 := by
  calc state.buffer.toNat * 2 ^ (5 - state.bits)
      < 2 ^ state.bits * 2 ^ (5 - state.bits) :=
        Nat.mul_lt_mul_of_pos_right h.buffer_lt (Nat.two_pow_pos _)
    _ = 2 ^ 5 := by rw [← pow_add, Nat.add_sub_cancel' hbits.le]

/-- The digits behind the prefix: those of the loops, and one with the bits left over and zeros. -/
theorem finish_carries (h : Carries bytes state digits) (hbits : state.bits < 5) :
    ∃ all pad, pad < 5 ∧ state.finish = 'z' :: all.map base32Digit ∧ (∀ d ∈ all, d < 32) ∧
      8 * bytes.length + pad = 5 * all.length ∧
      digitsValue 256 (bytes.map UInt8.toNat) * 2 ^ pad = digitsValue 32 all := by
  have hfill := h.fill_lt hbits
  obtain ⟨htoken, hdigits, hvalue, hbuffer, hlength, -⟩ := h
  unfold finish
  by_cases hrest : 0 < state.bits
  · have hdigit : state.buffer.toNat * 2 ^ (5 - state.bits) % 32 = _ := Nat.mod_eq_of_lt hfill
    rw [if_pos hrest, htoken, toNat_and_31,
      toNat_shiftLeft_ofNat _ (by omega) (hfill.trans (by decide)), hdigit]
    refine ⟨digits ++ [state.buffer.toNat * 2 ^ (5 - state.bits)], 5 - state.bits, by omega, ?_, ?_,
      ?_, ?_⟩
    · rw [map_append, map_cons, map_nil, cons_append]
    · exact forall_mem_append.mpr ⟨hdigits, forall_mem_singleton.mpr hfill⟩
    · rw [length_append, length_singleton]
      omega
    · rw [hvalue, digitsValue_concat, add_mul, mul_assoc, ← pow_add, Nat.add_sub_cancel' hbits.le]
      rfl
  · have hzero : state.bits = 0 := by omega
    rw [hzero] at hbuffer hlength hvalue
    refine ⟨digits, 0, by decide, by rw [if_neg hrest, htoken], hdigits, hlength, ?_⟩
    rw [hvalue]
    simpa using hbuffer

lemma map_base32Digit_inj {digits' : List ℕ} (hlt : ∀ d ∈ digits, d < 32)
    (hlt' : ∀ d ∈ digits', d < 32) (h : digits.map base32Digit = digits'.map base32Digit) :
    digits = digits' := by
  have hplace : ∀ d < 32, base32Alphabet.idxOf (base32Digit d) = d := by decide
  have hread {l : List ℕ} (hl : ∀ d ∈ l, d < 32) :
      (l.map base32Digit).map (fun c => base32Alphabet.idxOf c) = l := by
    rw [map_map]
    exact (map_congr_left fun d hd => hplace d (hl d hd)).trans (map_id l)
  rw [← hread hlt, h, hread hlt']

lemma finish_injective {bytes' : Bytes}
    (h : (encodeBytes bytes).finish = (encodeBytes bytes').finish) : bytes = bytes' := by
  obtain ⟨hvisits, hbits⟩ := visits_encodeBytes bytes
  obtain ⟨hvisits', hbits'⟩ := visits_encodeBytes bytes'
  obtain ⟨_, hcarries⟩ := hvisits.carries
  obtain ⟨_, hcarries'⟩ := hvisits'.carries
  obtain ⟨all, pad, hpad, htoken, hall, hlength, hvalue⟩ := finish_carries hcarries hbits
  obtain ⟨all', pad', hpad', htoken', hall', hlength', hvalue'⟩ := finish_carries hcarries' hbits'
  rw [htoken, htoken'] at h
  have hdigits : all = all' := map_base32Digit_inj hall hall' (cons.inj h).2
  -- fewer than five zeros are no byte
  have hsame : bytes.length = bytes'.length := by
    rw [hdigits] at hlength
    omega
  have hpads : pad = pad' := by
    rw [hdigits] at hlength
    omega
  rw [hdigits, ← hvalue', hpads] at hvalue
  have hvalues := Nat.eq_of_mul_eq_mul_right (Nat.two_pow_pos pad') hvalue
  have hbytes (bytes : Bytes) : ∀ d ∈ bytes.map UInt8.toNat, d < 256 := by
    intro d hd
    obtain ⟨byte, -, rfl⟩ := mem_map.mp hd
    exact byte.toNat_lt
  have hread := fixedDigits_value (hbytes bytes)
  rw [hvalues, length_map, hsame, ← @length_map _ _ bytes' UInt8.toNat,
    fixedDigits_value (hbytes bytes')] at hread
  exact (map_injective_iff.mpr fun _ _ => UInt8.toNat_inj.mp) hread.symm

lemma finish_shape (h : bytes ≠ []) :
    ∃ digits, (encodeBytes bytes).finish = 'z' :: digits ∧ digits ≠ [] ∧
      ∀ c ∈ digits, c ∈ base32Alphabet := by
  obtain ⟨hvisits, hbits⟩ := visits_encodeBytes bytes
  obtain ⟨_, hcarries⟩ := hvisits.carries
  obtain ⟨all, pad, -, htoken, hall, hlength, -⟩ := finish_carries hcarries hbits
  refine ⟨all.map base32Digit, htoken, ?_, ?_⟩
  · have hpos := length_pos_iff.mpr h
    exact ne_nil_of_length_pos (by rw [length_map]; omega)
  · intro c hc
    obtain ⟨d, hd, rfl⟩ := mem_map.mp hc
    have hmem : ∀ d < 32, base32Digit d ∈ base32Alphabet := by decide
    exact hmem d (hall d hd)

/-! ## §4 Identifiers -/

/-- The identifiers the encoder does not refuse. -/
def Encodable (identifier : JsString) : Prop :=
  identifier ≠ [] ∧ isUnicodeScalarString identifier = true

lemma scalar_of_isUnicodeScalarString {text : JsString} (h : isUnicodeScalarString text = true) :
    ∀ point ∈ codePoints text, ∃ c, point = .scalar c := by
  fun_induction isUnicodeScalarString text with
  | case1 => simp [codePoints, characters]
  | case2 code rest hcode ih =>
    -- a unit outside the surrogates is a character of its own
    have hsurrogate : isHighSurrogate code = false ∧ isLowSurrogate code = false := by
      simp only [isHighSurrogate, isLowSurrogate, UInt16.le_iff_toNat_le, UInt16.lt_iff_toNat_lt,
        decide_eq_false_iff_not, gt_iff_lt] at hcode ⊢
      simp at hcode ⊢
      omega
    rw [codePoints, characters_cons_of_not_high hsurrogate.1, map_cons, forall_mem_cons]
    exact ⟨⟨_, by rw [codePointOf, if_neg (by simp [hsurrogate])]⟩, ih h⟩
  | case3 | case4 | case5 => cases h
  | case6 code hcode hhigh low rest hlow ih =>
    have hpair : isHighSurrogate code = true ∧ isLowSurrogate low = true := by
      simp only [isHighSurrogate, isLowSurrogate, UInt16.le_iff_toNat_le, UInt16.lt_iff_toNat_lt,
        decide_eq_true_iff, gt_iff_lt] at hcode hhigh hlow ⊢
      simp at hcode hhigh hlow ⊢
      omega
    rw [codePoints, characters, if_pos hpair, map_cons, forall_mem_cons]
    exact ⟨⟨_, rfl⟩, ih h⟩

lemma utf8Encode_injOn {a b : JsString} (ha : isUnicodeScalarString a = true)
    (hb : isUnicodeScalarString b = true) (h : utf8Encode a = utf8Encode b) : a = b := by
  have hpoints {text : JsString} (htext : isUnicodeScalarString text = true) :
      ((codePoints text).map scalarValue).map .scalar = codePoints text := by
    rw [map_map]
    refine (map_congr_left fun point hpoint => ?_).trans (map_id _)
    obtain ⟨c, rfl⟩ := scalar_of_isUnicodeScalarString htext point hpoint
    rfl
  have hscalars := utf8_injective h
  rw [← unitsOf_codePoints a, ← unitsOf_codePoints b, ← hpoints ha, ← hpoints hb, hscalars]

lemma utf8Encode_ne_nil {text : JsString} (h : text ≠ []) : utf8Encode text ≠ [] := by
  intro hnil
  have hpoints : codePoints text = [] := map_eq_nil_iff.mp (utf8_injective hnil)
  exact h (by rw [← unitsOf_codePoints text, hpoints]; rfl)

lemma encodeExactIdentifierToken_ok {identifier : JsString} (h : Encodable identifier) :
    encodeExactIdentifierToken identifier =
      .ok (encodeBytes (utf8Encode identifier)).finish := by
  rw [encodeExactIdentifierToken, if_neg (by simp [h.1, h.2])]

/-- A token is its prefix and at least one digit. -/
theorem exists_token {identifier : JsString} (h : Encodable identifier) : ∃ digits,
    encodeExactIdentifierToken identifier = .ok ('z' :: digits) ∧ digits ≠ [] ∧
      ∀ c ∈ digits, ('a' ≤ c ∧ c ≤ 'z') ∨ ('2' ≤ c ∧ c ≤ '7') := by
  obtain ⟨digits, hfinish, hne, hdigits⟩ := finish_shape (utf8Encode_ne_nil h.1)
  have halphabet : ∀ c ∈ base32Alphabet, ('a' ≤ c ∧ c ≤ 'z') ∨ ('2' ≤ c ∧ c ≤ '7') := by decide
  exact ⟨digits, by rw [encodeExactIdentifierToken_ok h, hfinish], hne,
    fun c hc => halphabet c (hdigits c hc)⟩

/-- Tokens say which identifiers they are of, and are cut apart again at the spaces between them;
the buffer never needs more than 12 of its 32 bits. -/
theorem exactIdentifier_lossless :
    (∀ a b, Encodable a → Encodable b →
      encodeExactIdentifierToken a = encodeExactIdentifierToken b → a = b) ∧
    (∀ identifier, Encodable identifier → ∃ digits,
      encodeExactIdentifierToken identifier = .ok ('z' :: digits) ∧ digits ≠ [] ∧
        ∀ c ∈ digits, ('a' ≤ c ∧ c ≤ 'z') ∨ ('2' ≤ c ∧ c ≤ '7')) ∧
    (∀ identifiers, (∀ identifier ∈ identifiers, Encodable identifier) → ∃ tokens text,
      identifiers.mapM encodeExactIdentifierToken = .ok tokens ∧
        encodeExactIdentifierMatch identifiers = .ok text ∧
        (text.splitOn ' ').filter (· ≠ []) = tokens ∧
        (identifiers ≠ [] → text.splitOn ' ' = tokens)) ∧
    (∀ bytes, Visits bytes (encodeBytes bytes)) ∧
    ∀ bytes state, Visits bytes state →
      state.bits ≤ 12 ∧ state.buffer.toNat < 2 ^ state.bits ∧
        (state.bits < 5 →
          (∀ byte, (state.pushByte byte).buffer.toNat = state.buffer.toNat * 2 ^ 8 + byte.toNat) ∧
          (state.buffer <<< UInt32.ofNat (5 - state.bits)).toNat =
            state.buffer.toNat * 2 ^ (5 - state.bits)) := by
  refine ⟨?_, ?_, ?_, fun bytes => (visits_encodeBytes bytes).1, ?_⟩
  · intro a b ha hb h
    rw [encodeExactIdentifierToken_ok ha, encodeExactIdentifierToken_ok hb, Except.ok.injEq] at h
    exact utf8Encode_injOn ha.2 hb.2 (finish_injective h)
  · intro identifier h
    exact exists_token h
  · intro identifiers h
    obtain ⟨tokens, htokens⟩ := exists_mapM_ok (f := encodeExactIdentifierToken) fun a ha =>
      ⟨_, encodeExactIdentifierToken_ok (h a ha)⟩
    have hspace : ∀ token ∈ tokens, token ≠ [] ∧ ' ' ∉ token := by
      intro token htoken
      obtain ⟨a, ha, hread⟩ := (mem_of_mapM_ok htokens token).mp htoken
      obtain ⟨digits, hok, hne, hdigits⟩ := exists_token (h a ha)
      obtain rfl : 'z' :: digits = token := Except.ok.inj (hok.symm.trans hread)
      refine ⟨cons_ne_nil _ _, ?_⟩
      rintro (_ | ⟨_, hmem⟩)
      exact absurd (hdigits ' ' hmem) (by decide)
    refine ⟨tokens, joinWith [' '] tokens, htokens, by rw [encodeExactIdentifierMatch, htokens]; rfl,
      ?_⟩
    · have hsplit : tokens ≠ [] → (joinWith [' '] tokens).splitOn ' ' = tokens :=
        splitOn_intercalate ' ' fun token htoken => (hspace token htoken).2
      have hlength := (mapM_ok_iff.mp htokens).length_eq
      refine ⟨?_, fun hne => hsplit ?_⟩
      · cases tokens with
        | nil => rfl
        | cons token rest =>
          rw [hsplit (cons_ne_nil _ _), filter_eq_self]
          exact fun token htoken => decide_eq_true (hspace token htoken).1
      · rintro rfl
        exact hne (length_eq_zero_iff.mp hlength)
  · intro bytes state hvisits
    obtain ⟨digits, hcarries⟩ := hvisits.carries
    refine ⟨hcarries.bits_le, hcarries.buffer_lt, fun hbits => ⟨fun byte => ?_, ?_⟩⟩
    · have hpow : 2 ^ state.bits ≤ 2 ^ 4 := Nat.pow_le_pow_right (by decide) (by omega)
      exact toNat_pushByte byte (hcarries.buffer_lt.trans_le (hpow.trans (by decide)))
    · exact toNat_shiftLeft_ofNat _ (by omega) ((hcarries.fill_lt hbits).trans (by decide))

theorem exactIdentifier_lossless_pairs :
    encodeExactIdentifierToken [0xd83d, 0xde00] ≠ encodeExactIdentifierToken [0xd83d, 0xde01] :=
  fun h => absurd (exactIdentifier_lossless.1 _ _ ⟨by decide, by decide⟩ ⟨by decide, by decide⟩ h)
    (by decide)

end Kwiry.Plugin
