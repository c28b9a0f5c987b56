import Kwiry.Ranking.Observed

/-!
# One Scalar Against One Rule

What a predicate says of a scalar's observation, it says of the scalar's terms: a canonical
decimal or hexadecimal text against digits that sort like the value, a date against itself, and
an exact value against its kind and bytes.
-/

namespace Kwiry

open Foundations List Option

/-! ## §1 Typed texts -/

/-- The types whose values are indexed in order. -/
inductive RangeKind where
  | i64 | u64 | f64 | date

def RangeKind.field : RangeKind → PropertyField
  | i64 => .i64Values
  | u64 => .u64Values
  | f64 => .f64Values
  | date => .dateValues

def RangeKind.pathField : RangeKind → PropertyField
  | i64 => .pathI64Values
  | u64 => .pathU64Values
  | f64 => .pathF64Values
  | date => .pathDateValues

def i64Text (value : ℤ) : Text :=
  hexWord (wordOfInt value ^^^ 2 ^ 63)

/-- The typed text of a scalar, the same behind both of its keys. -/
def rangeText : PropertyValue → Option (RangeKind × Text)
  | .i64 value => some (.i64, i64Text value)
  | .u64 value => some (.u64, hexWord value)
  | .f64 bits => if isFiniteDouble bits then some (.f64, hexWord (sortableBits bits)) else none
  | .string value => if isIsoCalendarDate value then some (.date, value) else none
  | _ => none

lemma scalarTerms_eq (H : IdealHash) (name path : Text) (value : PropertyValue) :
    scalarTerms H name path value =
      [(.paths, propertyPathTerm H name path),
        (.exact, propertyExactTermForKey H (propertyNameTerm H name) value),
        (.pathExact, propertyExactTermForKey H (propertyPathTerm H name path) value)] ++
      (rangeText value).elim [] fun typed =>
        [(typed.1.field, keyed (propertyNameTerm H name) typed.2),
          (typed.1.pathField, keyed (propertyPathTerm H name path) typed.2)] := by
  cases value with
  | f64 bits =>
    by_cases hfinite : isFiniteDouble bits = true
    · simp only [scalarTerms, rangeText, if_pos hfinite, Option.elim, RangeKind.field,
        RangeKind.pathField, propertyF64TermForKey]
    · simp only [scalarTerms, rangeText, if_neg hfinite, Option.elim]
  | string value =>
    by_cases hdate : isIsoCalendarDate value = true
    · simp only [scalarTerms, rangeText, if_pos hdate, Option.elim, RangeKind.field,
        RangeKind.pathField, propertyDateTermForKey]
    · simp only [scalarTerms, rangeText, if_neg hdate, Option.elim]
  | i64 value =>
    simp only [scalarTerms, rangeText, Option.elim, RangeKind.field, RangeKind.pathField,
      propertyI64TermForKey, i64Text]
  | u64 value =>
    simp only [scalarTerms, rangeText, Option.elim, RangeKind.field, RangeKind.pathField,
      propertyU64TermForKey]
  | null | bool | sequence | map => simp only [scalarTerms, rangeText, Option.elim]

lemma isIsoCalendarDate_shape {value : Text} (h : isIsoCalendarDate value = true) :
    ∃ y₀ y₁ y₂ y₃ m₀ m₁ d₀ d₁ : Char,
      value = [y₀, y₁, y₂, y₃, '-', m₀, m₁, '-', d₀, d₁] ∧
      (∀ c ∈ [y₀, y₁, y₂, y₃, m₀, m₁, d₀, d₁], c.isDigit = true) ∧
      1 ≤ hexValue m₀ * 10 + hexValue m₁ ∧ hexValue m₀ * 10 + hexValue m₁ ≤ 12 ∧
      1 ≤ hexValue d₀ * 10 + hexValue d₁ ∧ hexValue d₀ * 10 + hexValue d₁ ≤ 31 := by
  revert h
  fun_cases isIsoCalendarDate value with
  | case1 y₀ y₁ y₂ y₃ m₀ m₁ d₀ d₁ hdigits year month day leap days =>
    intro h
    simp only [Bool.and_eq_true, decide_eq_true_eq] at h
    obtain ⟨⟨⟨hlow, hhigh⟩, hday⟩, hlast⟩ := h
    have hmax : days.getD (month - 1) 0 ≤ 31 := by
      have hall : ∀ i, days.getD i 0 ≤ 31 := by
        intro i
        rcases i with _ | _ | _ | _ | _ | _ | _ | _ | _ | _ | _ | _ | i
        all_goals simp [days]
        split <;> decide
      exact hall _
    exact ⟨y₀, y₁, y₂, y₃, m₀, m₁, d₀, d₁, rfl, all_eq_true.mp hdigits, hlow, hhigh,
      Nat.one_le_iff_ne_zero.mpr hday, hlast.trans hmax⟩
  | case2 | case3 => exact fun h => absurd h Bool.false_ne_true

lemma isDigit_iff {c : Char} : c.isDigit = true ↔ 48 ≤ c.toNat ∧ c.toNat ≤ 57 := by
  simp [Char.isDigit, UInt32.le_iff_toNat_le]

lemma isAscii_of_isIsoCalendarDate {value : Text} (h : isIsoCalendarDate value = true) :
    isAscii value := by
  obtain ⟨y₀, y₁, y₂, y₃, m₀, m₁, d₀, d₁, rfl, hdigits, -⟩ := isIsoCalendarDate_shape h
  intro c hc
  have hcases : c = '-' ∨ c ∈ [y₀, y₁, y₂, y₃, m₀, m₁, d₀, d₁] := by
    simp only [mem_cons, not_mem_nil, or_false] at hc ⊢
    tauto
  rcases hcases with rfl | hdigit
  · decide
  · exact lt_of_le_of_lt (isDigit_iff.mp (hdigits c hdigit)).2 (by decide)

variable {text : Text}

lemma isAscii_of_rangeText {value : PropertyValue} {kind : RangeKind}
    (h : rangeText value = some (kind, text)) : isAscii text := by
  cases value with
  | i64 | u64 => cases h; exact isAscii_hexWord _
  | f64 bits =>
    rw [rangeText] at h
    split at h
    · cases h
      exact isAscii_hexWord _
    · cases h
  | string value =>
    rw [rangeText] at h
    split at h
    · next hdate =>
      cases h
      exact isAscii_of_isIsoCalendarDate hdate
    · cases h
  | null | bool | sequence | map => cases h

/-! ## §2 One scalar against one range -/

lemma compare_cons_isLE {a b : Char} {s t : Text} : (compare (a :: s) (b :: t)).isLE = true ↔
      a.toNat < b.toNat ∨ a.toNat = b.toNat ∧ (compare s t).isLE = true := by
  have hchars : compare a b = compare a.toNat b.toNat := by
    show compareOfLessAndEq a b = compareOfLessAndEq a.toNat b.toNat
    simp only [compareOfLessAndEq, Char.lt_def, UInt32.lt_iff_toNat_lt, ← Char.toNat_inj]
    rfl
  rw [List.compare_cons_cons, hchars]
  rcases lt_trichotomy a.toNat b.toNat with hlt | heq | hgt
  · simp [compare_lt_iff_lt.mpr hlt, hlt]
  · simp [heq]
  · simp [compare_gt_iff_gt.mpr hgt, hgt.le, hgt.ne']

/-- Every date lies between the first and the last. -/
theorem date_between {value : Text} (h : isIsoCalendarDate value = true) :
    (compare "0000-01-01".toList value).isLE = true ∧
      (compare value "9999-12-31".toList).isLE = true := by
  obtain ⟨y₀, y₁, y₂, y₃, m₀, m₁, d₀, d₁, rfl, hdigits, hm, hm', hd, hd'⟩ :=
    isIsoCalendarDate_shape h
  simp only [forall_mem_cons, not_mem_nil, isDigit_iff] at hdigits
  have hvalue : ∀ c : Char, 48 ≤ c.toNat ∧ c.toNat ≤ 57 → hexValue c = c.toNat - 48 := by
    intro c hc
    rw [hexValue, if_pos (isDigit_iff.mpr hc)]
    rfl
  obtain ⟨hy₀, hy₁, hy₂, hy₃, hm₀, hm₁, hd₀, hd₁, -⟩ := hdigits
  rw [hvalue m₀ hm₀, hvalue m₁ hm₁] at hm hm'
  rw [hvalue d₀ hd₀, hvalue d₁ hd₁] at hd hd'
  have hnil : (compare ([] : Text) []).isLE = true := rfl
  constructor
  · show (compare ['0', '0', '0', '0', '-', '0', '1', '-', '0', '1'] _).isLE = true
    simp only [compare_cons_isLE, hnil, Char.reduceToNat, lt_irrefl, false_or, true_and, and_true]
    omega
  · show (compare _ ['9', '9', '9', '9', '-', '1', '2', '-', '3', '1']).isLE = true
    simp only [compare_cons_isLE, hnil, Char.reduceToNat, lt_irrefl, false_or, true_and, and_true]
    omega

lemma compare_i64Text {a b : ℤ} (ha : -2 ^ 63 ≤ a) (ha' : a < 2 ^ 63) (hb : -2 ^ 63 ≤ b)
    (hb' : b < 2 ^ 63) : compare (i64Text a) (i64Text b) = compare a b := by
  -- flipping the sign bit is a shift of the signed range
  have hshift : ∀ v : ℤ, -2 ^ 63 ≤ v → v < 2 ^ 63 →
      ((wordOfInt v ^^^ 2 ^ 63 : ℕ) : ℤ) = v + 2 ^ 63 ∧ wordOfInt v ^^^ 2 ^ 63 < 2 ^ 64 := by
    intro v hlow hhigh
    rcases lt_or_ge v 0 with hneg | hpos
    · have hword : wordOfInt v = (v + 2 ^ 63).toNat + 2 ^ 63 := by
        unfold wordOfInt
        omega
      rw [hword, xor_two_pow_add (by omega)]
      omega
    · have hword : wordOfInt v = v.toNat := by
        unfold wordOfInt
        omega
      rw [hword, xor_two_pow_of_lt (by omega)]
      omega
  obtain ⟨hva, hwa⟩ := hshift a ha ha'
  obtain ⟨hvb, hwb⟩ := hshift b hb hb'
  rw [i64Text, i64Text, compare_hexWord hwa hwb]
  rcases lt_trichotomy a b with hlt | heq | hgt
  · rw [compare_lt_iff_lt.mpr hlt, compare_lt_iff_lt.mpr (by omega)]
  · rw [compare_eq_iff_eq.mpr heq, compare_eq_iff_eq.mpr (by rw [heq])]
  · rw [compare_gt_iff_gt.mpr hgt, compare_gt_iff_gt.mpr (by omega)]

variable {bits hi levels' lo n : ℕ}

lemma sortableBits_eq (h : bits < 2 ^ 64) :
    (sortableBits bits : ℤ) = totalKey 64 bits + 2 ^ 63 ∧ sortableBits bits < 2 ^ 64 := by
  unfold sortableBits totalKey
  split
  · next hsmall =>
    rw [xor_two_pow_of_lt hsmall]
    omega
  · omega

lemma compare_f64Text_isLE {a b : ℕ} (ha : a < 2 ^ 64) (hb : b < 2 ^ 64) :
    (compare (hexWord (sortableBits a)) (hexWord (sortableBits b))).isLE = true ↔
      totalKey 64 a ≤ totalKey 64 b := by
  obtain ⟨hka, hla⟩ := sortableBits_eq ha
  obtain ⟨hkb, hlb⟩ := sortableBits_eq hb
  rw [compare_hexWord hla hlb, Std.isLE_compare]
  omega

/-- Above a widened lower bound of the total order is above the bound of the numeric order. -/
theorem totalKey_widen_low {value : ℕ} (hbits : bits < 2 ^ 64) (hvalue : value < 2 ^ 64) :
    totalKey 64 (widenZero (2 ^ 63) bits) ≤ totalKey 64 value ↔
      numericKey 64 bits ≤ numericKey 64 value := by
  unfold widenZero totalKey numericKey
  simp only [show (64 : ℕ) - 1 = 63 from rfl]
  split_ifs <;> omega

lemma totalKey_widen_high {value : ℕ} (hbits : bits < 2 ^ 64) (hvalue : value < 2 ^ 64) :
    totalKey 64 value ≤ totalKey 64 (widenZero 0 bits) ↔
      numericKey 64 value ≤ numericKey 64 bits := by
  unfold widenZero totalKey numericKey
  simp only [show (64 : ℕ) - 1 = 63 from rfl]
  split_ifs <;> omega

/-- Every finite double lies between the extreme ones. -/
theorem finite_between {value : ℕ} (hvalue : value < 2 ^ 64) (h : isFiniteDouble value = true) :
    totalKey 64 (widenZero (2 ^ 63) minDoubleBits) ≤ totalKey 64 value ∧
      totalKey 64 value ≤ totalKey 64 (widenZero 0 maxDoubleBits) := by
  rw [isFiniteDouble, isFiniteBits, decide_eq_true_iff] at h
  unfold widenZero totalKey numericKey minDoubleBits maxDoubleBits
  simp only [show (64 : ℕ) - 1 = 63 from rfl]
  split_ifs <;> omega

/-! ## §3 Canonical texts -/

lemma hexDigit_spec (h : n < 16) :
    hexValue (hexDigit n) = n ∧ (hexDigit n).toLower = hexDigit n ∧ hexDigit n ≠ '+' ∧
      ((hexDigit n).isDigit || ('a' ≤ hexDigit n && hexDigit n ≤ 'f')) = true := by
  have hall : ∀ n < 16, hexValue (hexDigit n) = n ∧ (hexDigit n).toLower = hexDigit n ∧
      hexDigit n ≠ '+' ∧ ((hexDigit n).isDigit || ('a' ≤ hexDigit n && hexDigit n ≤ 'f')) = true := by
    decide +kernel
  exact hall n h

lemma hexDigit_hexValue {c : Char} (h : (c.isDigit || ('a' ≤ c && c ≤ 'f')) = true) :
    hexValue c < 16 ∧ hexDigit (hexValue c) = c := by
  have hall : ∀ n < 128, ((Char.ofNat n).isDigit || ('a' ≤ Char.ofNat n && Char.ofNat n ≤ 'f')) = true →
      hexValue (Char.ofNat n) < 16 ∧ hexDigit (hexValue (Char.ofNat n)) = Char.ofNat n := by
    decide +kernel
  have hbound : c.toNat < 128 := by
    rcases Bool.or_eq_true_iff.mp h with hdigit | hletter
    · exact lt_of_le_of_lt (isDigit_iff.mp hdigit).2 (by decide)
    · rw [Bool.and_eq_true, decide_eq_true_eq, decide_eq_true_eq, Char.le_def, Char.le_def,
        UInt32.le_iff_toNat_le, UInt32.le_iff_toNat_le] at hletter
      exact lt_of_le_of_lt hletter.2 (by decide)
  have hchar := hall c.toNat hbound
  rw [Char.ofNat_toNat] at hchar
  exact hchar h

lemma digits_hexWord (bits : ℕ) : (hexWord bits).map hexValue = fixedDigits 16 16 bits := by
  rw [hexWord, List.map_map]
  conv_rhs => rw [← List.map_id (fixedDigits 16 16 bits)]
  exact map_congr_left fun digit hdigit => (hexDigit_spec (fixedDigits_lt (by decide) hdigit)).1

/-- The canonical texts of doubles are the words of finite ones. -/
theorem parseCanonicalF64_eq_some_iff {key : ℤ} : parseCanonicalF64 text = some key ↔
      ∃ bits < 2 ^ 64, text = hexWord bits ∧ isFiniteDouble bits = true ∧
        key = numericKey 64 bits := by
  have hfold : ∀ text : Text, text.foldl (fun bits c => bits * 16 + hexValue c) 0 =
      digitsValue 16 (text.map hexValue) := by
    intro text
    rw [digitsValue, foldl_map]
  constructor
  · intro h
    rw [parseCanonicalF64] at h
    split at h
    · cases h
    · next hshape =>
      rw [not_or, not_not, Bool.not_eq_false, List.all_eq_true] at hshape
      obtain ⟨hlength, hdigits⟩ := hshape
      have hvalues : ∀ d ∈ text.map hexValue, d < 16 := by
        intro d hd
        obtain ⟨c, hc, rfl⟩ := mem_map.mp hd
        exact (hexDigit_hexValue (hdigits c hc)).1
      have hback : (text.map hexValue).map hexDigit = text := by
        rw [List.map_map]
        conv_rhs => rw [← List.map_id text]
        exact map_congr_left fun c hc => (hexDigit_hexValue (hdigits c hc)).2
      have hascii : isAscii text := by
        intro c hc
        rw [← (hexDigit_hexValue (hdigits c hc)).2]
        exact (hexDigit_ascii (hexDigit_hexValue (hdigits c hc)).1).1
      have hsixteen : (text.map hexValue).length = 16 := by
        rw [length_map, ← hlength, ← length_utf8, utf8_of_ascii hascii, length_map]
      simp only [hfold, ite_none_right_eq_some, some.injEq] at h
      refine ⟨digitsValue 16 (text.map hexValue), ?_, ?_, h.1, h.2.symm⟩
      · have hlt := digitsValue_lt hvalues
        rw [hsixteen] at hlt
        exact hlt
      · have hword := fixedDigits_value hvalues
        rw [hsixteen] at hword
        rw [hexWord, hword, hback]
  · rintro ⟨bits, hbits, rfl, hfinite, rfl⟩
    have hlength : utf8Len (hexWord bits) = 16 := by
      rw [← length_utf8, utf8_of_ascii (isAscii_hexWord bits), length_map, hexWord,
        length_map, length_fixedDigits]
    have hall : (hexWord bits).all (fun c => c.isDigit || ('a' ≤ c && c ≤ 'f')) = true := by
      rw [List.all_eq_true]
      intro c hc
      obtain ⟨digit, hdigit, rfl⟩ := List.mem_map.mp hc
      exact (hexDigit_spec (fixedDigits_lt (by decide) hdigit)).2.2.2
    rw [parseCanonicalF64, if_neg (by simp [hlength, hall])]
    simp only [hfold, digits_hexWord, value_fixedDigits (show bits < 16 ^ 16 from hbits)]
    exact if_pos hfinite

lemma parseF64Bits_hexWord (hbits : bits < 2 ^ 64) (hfinite : isFiniteDouble bits = true) :
    parseF64Bits (hexWord bits) = .ok bits := by
  have hchars : ∀ c ∈ hexWord bits, ∃ n < 16, c = hexDigit n := by
    intro c hc
    obtain ⟨digit, hdigit, rfl⟩ := List.mem_map.mp hc
    exact ⟨digit, fixedDigits_lt (by decide) hdigit, rfl⟩
  have hlower : (hexWord bits).map (fun c => hexValue c.toLower) = fixedDigits 16 16 bits := by
    rw [← digits_hexWord]
    refine map_congr_left fun c hc => ?_
    obtain ⟨n, hn, rfl⟩ := hchars c hc
    rw [(hexDigit_spec hn).2.1]
  have hdigits : (hexWord bits).all
      (fun c => c.isDigit || ('a' ≤ c.toLower && c.toLower ≤ 'f')) = true := by
    rw [List.all_eq_true]
    intro c hc
    obtain ⟨n, hn, rfl⟩ := hchars c hc
    rw [(hexDigit_spec hn).2.1]
    exact (hexDigit_spec hn).2.2.2
  have hnonempty : hexWord bits ≠ [] := by
    intro hnil
    have hlength := congrArg length hnil
    rw [hexWord, length_map, length_fixedDigits] at hlength
    cases hlength
  have hparse : parseHexWord (hexWord bits) = some bits := by
    unfold parseHexWord
    split
    next digits rest heq =>
      obtain ⟨n, hn, hplus⟩ := hchars '+' (by rw [heq]; exact mem_cons_self)
      exact absurd hplus.symm (hexDigit_spec hn).2.2.1
    simp only [hdigits, hlower, value_fixedDigits (show bits < 16 ^ 16 from hbits)]
    rw [if_neg (by simpa using hnonempty), if_pos hbits]
  rw [parseF64Bits, hparse]
  exact if_pos hfinite

/-! ## §4 Bounds -/

/-- A bound says the same of a value whichever way it is read. -/
theorem bound_iff {α : Type} {parseCanonical : Text → Option ℤ} {parse : Text → Except String α}
    {default a : α} {bound : Option Text} {P : ℤ → Prop} {Q : α → Prop}
    (hvalid : bound.any (fun value => (parseCanonical value).isNone) = false)
    (hparse : boundOr parse default bound = .ok a)
    (hsame : ∀ text key, parseCanonical text = some key → parse text = .ok a → (P key ↔ Q a))
    (hdefault : Q default) : (∀ key ∈ bound.bind parseCanonical, P key) ↔ Q a := by
  cases bound with
  | none =>
    cases hparse
    simpa using hdefault
  | some text =>
    simp only [any_some, isNone_eq_false_iff, isSome_iff_exists] at hvalid
    obtain ⟨key, hkey⟩ := hvalid
    rw [boundOr] at hparse
    simpa [hkey] using hsame text key hkey hparse

lemma parsedWithin_iff {parse : Text → Option ℤ} {value : ℤ} (h : parse text = some value)
    (min max : Option Text) :
    parsedWithin parse text min max = true ↔
      (∀ key ∈ min.bind parse, key ≤ value) ∧ ∀ key ∈ max.bind parse, value ≤ key := by
  have hall : ∀ (bound : Option ℤ) (p : ℤ → Bool), bound.all p = true ↔ ∀ key ∈ bound, p key = true := by
    intro bound p
    cases bound <;> simp
  rw [parsedWithin, h, any_some, withinRange, Bool.and_eq_true, hall, hall]
  simp only [decide_eq_true_eq]

lemma parseCanonicalI64_iff {value : ℤ} : parseCanonicalI64 text = some value ↔
      (-2 ^ 63 ≤ value ∧ value < 2 ^ 63) ∧ text = (toString value).toList := by
  rw [parseCanonicalI64, canonical_eq_some_iff]
  refine ⟨fun ⟨hparse, htext⟩ => ⟨?_, htext⟩, fun ⟨⟨hlow, hhigh⟩, htext⟩ => ⟨?_, htext⟩⟩
  · exact_mod_cast parseSigned_bounds (by decide) hparse
  · rw [htext]
    exact parseSigned_toString (by exact_mod_cast hlow) (by exact_mod_cast hhigh)

lemma parseCanonicalU64_iff {value : ℤ} : parseCanonicalU64 text = some value ↔
      ∃ n : ℕ, value = n ∧ n < 2 ^ 64 ∧ text = (toString n).toList := by
  rw [parseCanonicalU64, canonical_eq_some_iff]
  constructor
  · rintro ⟨hparse, htext⟩
    simp only [map_eq_some_iff, bind_eq_bind, bind_eq_some_iff,
      Option.pure_def, some.injEq] at hparse
    obtain ⟨_, ⟨n, hn, rfl⟩, rfl⟩ := hparse
    exact ⟨n, rfl, parseUnsigned_lt hn, htext⟩
  · rintro ⟨n, rfl, hn, htext⟩
    refine ⟨?_, htext⟩
    rw [htext, parseUnsigned_toString hn]
    rfl

/-- A scalar that is observed and whose observation a predicate accepts. -/
def Observed (predicate : PropertyPredicate) (scalar : PropertyValue) : Prop :=
  ∃ observed, rankingScalarOf scalar = some observed ∧ scalarMatches predicate observed = true

/-- A scalar with a typed text between two bounds. -/
def TypedBetween (kind : RangeKind) (lower upper : Text) (scalar : PropertyValue) : Prop :=
  ∃ text, rangeText scalar = some (kind, text) ∧ (compare lower text).isLE = true ∧
    (compare text upper).isLE = true

section Ranges

variable {scalar : PropertyValue} {levels : ℕ} {pointer min max : Option Text}

lemma observed_i64_iff :
    Observed (.i64Range pointer min max) scalar ↔ ∃ value, scalar = .i64 value ∧
      parsedWithin parseCanonicalI64 (toString value).toList min max = true := by
  cases scalar <;> grind [Observed, rankingScalarOf, scalarMatches]

lemma observed_u64_iff :
    Observed (.u64Range pointer min max) scalar ↔ ∃ value, scalar = .u64 value ∧
      parsedWithin parseCanonicalU64 (toString value).toList min max = true := by
  cases scalar <;> grind [Observed, rankingScalarOf, scalarMatches]

lemma observed_f64_iff :
    Observed (.f64Range pointer min max) scalar ↔ ∃ bits, scalar = .f64 bits ∧
      isFiniteDouble bits = true ∧ parsedWithin parseCanonicalF64 (hexWord bits) min max = true := by
  cases scalar <;> grind [Observed, rankingScalarOf, scalarMatches]

/-- A bound is the end of its type, or what its text parses to. -/
theorem boundOr_ok {α : Type} {parse : Text → Except String α} {default a : α}
    {bound : Option Text} {P : α → Prop} (h : boundOr parse default bound = .ok a)
    (hdefault : P default) (hparse : ∀ text, parse text = .ok a → P a) : P a := by
  cases bound with
  | none =>
    cases h
    exact hdefault
  | some text => exact hparse text h

lemma parseI64_ok {value : ℤ} (h : parseI64 text = .ok value) :
    -2 ^ 63 ≤ value ∧ value < 2 ^ 63 := by
  rw [parseI64] at h
  split at h
  · next hparse =>
    cases h
    exact_mod_cast parseSigned_bounds (by decide) hparse
  · cases h

lemma parseU64_ok {value : ℕ} (h : parseU64 text = .ok value) : value < 2 ^ 64 := by
  rw [parseU64] at h
  split at h
  · next hparse =>
    cases h
    exact parseUnsigned_lt hparse
  · cases h

lemma validateRange_bounds {parse : Text → Option ℤ} (h : validateRange min max parse = .ok ()) :
    min.any (fun value => (parse value).isNone) = false ∧
      max.any (fun value => (parse value).isNone) = false := by
  simp only [validateRange, bind_ok_iff, rejectIf_ok, not_or] at h
  obtain ⟨_, -, _, ⟨hmin, hmax⟩, -⟩ := h
  exact ⟨by simpa using hmin, by simpa using hmax⟩

lemma i64Range_agrees (hscalar : scalar.WellFormed levels) {lo hi : ℤ}
    (hvalid : validateRange min max parseCanonicalI64 = .ok ())
    (hmin : boundOr parseI64 (-2 ^ 63) min = .ok lo)
    (hmax : boundOr parseI64 (2 ^ 63 - 1) max = .ok hi) :
    Observed (.i64Range pointer min max) scalar ↔
      TypedBetween .i64 (i64Text lo) (i64Text hi) scalar := by
  obtain ⟨hvmin, hvmax⟩ := validateRange_bounds hvalid
  have hlo : -2 ^ 63 ≤ lo ∧ lo < 2 ^ 63 :=
    boundOr_ok (P := fun a => -2 ^ 63 ≤ a ∧ a < 2 ^ 63) hmin (by decide) fun _ => parseI64_ok
  have hhi : -2 ^ 63 ≤ hi ∧ hi < 2 ^ 63 :=
    boundOr_ok (P := fun a => -2 ^ 63 ≤ a ∧ a < 2 ^ 63) hmax (by decide) fun _ => parseI64_ok
  have hparse : ∀ text key a, parseCanonicalI64 text = some key → parseI64 text = .ok a → key = a := by
    intro text key a hkey ha
    rw [parseI64, (canonical_eq_some_iff.mp hkey).1] at ha
    exact Except.ok.inj ha
  have hone : ∀ value : ℤ, -2 ^ 63 ≤ value → value < 2 ^ 63 →
      (parsedWithin parseCanonicalI64 (toString value).toList min max = true ↔
        (compare (i64Text lo) (i64Text value)).isLE = true ∧
          (compare (i64Text value) (i64Text hi)).isLE = true) := by
    intro value hlow hhigh
    rw [parsedWithin_iff (parseCanonicalI64_iff.mpr ⟨⟨hlow, hhigh⟩, rfl⟩),
      compare_i64Text hlo.1 hlo.2 hlow hhigh, compare_i64Text hlow hhigh hhi.1 hhi.2,
      Std.isLE_compare, Std.isLE_compare]
    refine and_congr ?_ ?_
    · exact bound_iff (P := (· ≤ value)) (Q := (· ≤ value)) hvmin hmin
        (fun text key hkey ha => by rw [hparse _ _ _ hkey ha]) hlow
    · exact bound_iff (P := (value ≤ ·)) (Q := (value ≤ ·)) hvmax hmax
        (fun text key hkey ha => by rw [hparse _ _ _ hkey ha]) (by omega)
  rw [observed_i64_iff]
  cases hscalar with
  | i64 _ value hlow hhigh => simpa [TypedBetween, rangeText] using hone value hlow hhigh
  | f64 _ bits => by_cases h : isFiniteDouble bits = true <;> simp [TypedBetween, rangeText, h]
  | string _ value =>
    by_cases h : isIsoCalendarDate value = true <;> simp [TypedBetween, rangeText, h]
  | null | bool | u64 | sequence | map => simp [TypedBetween, rangeText]

lemma u64Range_agrees (hscalar : scalar.WellFormed levels)
    (hvalid : validateRange min max parseCanonicalU64 = .ok ())
    (hmin : boundOr parseU64 0 min = .ok lo) (hmax : boundOr parseU64 (2 ^ 64 - 1) max = .ok hi) :
    Observed (.u64Range pointer min max) scalar ↔
      TypedBetween .u64 (hexWord lo) (hexWord hi) scalar := by
  obtain ⟨hvmin, hvmax⟩ := validateRange_bounds hvalid
  have hlo : lo < 2 ^ 64 := boundOr_ok (P := (· < 2 ^ 64)) hmin (by decide) fun _ => parseU64_ok
  have hhi : hi < 2 ^ 64 := boundOr_ok (P := (· < 2 ^ 64)) hmax (by decide) fun _ => parseU64_ok
  have hparse : ∀ (text : Text) (key : ℤ) (a : ℕ), parseCanonicalU64 text = some key →
      parseU64 text = .ok a → key = a := by
    intro text key a hkey ha
    obtain ⟨n, rfl, hn, rfl⟩ := parseCanonicalU64_iff.mp hkey
    rw [parseU64, parseUnsigned_toString hn] at ha
    exact congrArg _ (Except.ok.inj ha)
  have hone : ∀ value : ℕ, value < 2 ^ 64 →
      (parsedWithin parseCanonicalU64 (toString value).toList min max = true ↔
        (compare (hexWord lo) (hexWord value)).isLE = true ∧
          (compare (hexWord value) (hexWord hi)).isLE = true) := by
    intro value hvalue
    rw [parsedWithin_iff (parseCanonicalU64_iff.mpr ⟨value, rfl, hvalue, rfl⟩),
      compare_hexWord hlo hvalue, compare_hexWord hvalue hhi, Std.isLE_compare, Std.isLE_compare]
    refine and_congr ?_ ?_
    · refine bound_iff (P := (· ≤ (value : ℤ))) (Q := (· ≤ value)) hvmin hmin
        (fun text key hkey ha => ?_) (Nat.zero_le _)
      rw [hparse _ _ _ hkey ha, Int.ofNat_le]
    · refine bound_iff (P := ((value : ℤ) ≤ ·)) (Q := (value ≤ ·)) hvmax hmax
        (fun text key hkey ha => ?_) (by omega)
      rw [hparse _ _ _ hkey ha, Int.ofNat_le]
  rw [observed_u64_iff]
  cases hscalar with
  | u64 _ value hvalue => simpa [TypedBetween, rangeText] using hone value hvalue
  | f64 _ bits => by_cases h : isFiniteDouble bits = true <;> simp [TypedBetween, rangeText, h]
  | string _ value =>
    by_cases h : isIsoCalendarDate value = true <;> simp [TypedBetween, rangeText, h]
  | null | bool | i64 | sequence | map => simp [TypedBetween, rangeText]

lemma f64Range_agrees (hscalar : scalar.WellFormed levels)
    (hvalid : validateRange min max parseCanonicalF64 = .ok ())
    (hmin : boundOr parseF64Bits minDoubleBits min = .ok lo)
    (hmax : boundOr parseF64Bits maxDoubleBits max = .ok hi) :
    Observed (.f64Range pointer min max) scalar ↔
      TypedBetween .f64 (hexWord (sortableBits (widenZero (2 ^ 63) lo)))
        (hexWord (sortableBits (widenZero 0 hi))) scalar := by
  obtain ⟨hvmin, hvmax⟩ := validateRange_bounds hvalid
  have hwiden : ∀ {zeroBits bits : ℕ}, zeroBits < 2 ^ 64 → bits < 2 ^ 64 →
      widenZero zeroBits bits < 2 ^ 64 := by
    intro zeroBits bits hzero hbits
    unfold widenZero
    split <;> assumption
  have hword : ∀ (text : Text) (bits : ℕ), parseF64Bits text = .ok bits → bits < 2 ^ 64 := by
    intro text bits h
    unfold parseF64Bits parseHexWord at h
    extract_lets digits isHexDigit at h
    by_cases hshape : (digits.isEmpty || !digits.all isHexDigit) = true
    · simp [hshape] at h
    · simp only [hshape, Bool.false_eq_true, if_false] at h
      split at h
      · cases h
      · next heq =>
        rw [ite_none_right_eq_some] at heq
        split at h
        · cases h
          exact some.inj heq.2 ▸ heq.1
        · cases h
  have hlo : lo < 2 ^ 64 := boundOr_ok (P := (· < 2 ^ 64)) hmin (by decide) fun text => hword text lo
  have hhi : hi < 2 ^ 64 := boundOr_ok (P := (· < 2 ^ 64)) hmax (by decide) fun text => hword text hi
  have hparse : ∀ (text : Text) (key : ℤ) (a : ℕ), parseCanonicalF64 text = some key →
      parseF64Bits text = .ok a → key = numericKey 64 a := by
    intro text key a hkey ha
    obtain ⟨bits, hbits, rfl, hfinite, rfl⟩ := parseCanonicalF64_eq_some_iff.mp hkey
    rw [parseF64Bits_hexWord hbits hfinite] at ha
    exact congrArg _ (Except.ok.inj ha)
  have hone : ∀ bits : ℕ, bits < 2 ^ 64 → isFiniteDouble bits = true →
      (parsedWithin parseCanonicalF64 (hexWord bits) min max = true ↔
        (compare (hexWord (sortableBits (widenZero (2 ^ 63) lo)))
            (hexWord (sortableBits bits))).isLE = true ∧
          (compare (hexWord (sortableBits bits))
            (hexWord (sortableBits (widenZero 0 hi)))).isLE = true) := by
    intro bits hbits hfinite
    rw [parsedWithin_iff (parseCanonicalF64_eq_some_iff.mpr ⟨bits, hbits, rfl, hfinite, rfl⟩),
      compare_f64Text_isLE (hwiden (by decide) hlo) hbits,
      compare_f64Text_isLE hbits (hwiden (by decide) hhi)]
    obtain ⟨hlowest, hhighest⟩ := finite_between hbits hfinite
    refine and_congr ?_ ?_
    · refine bound_iff (P := (· ≤ numericKey 64 bits))
        (Q := fun lo => totalKey 64 (widenZero (2 ^ 63) lo) ≤ totalKey 64 bits) hvmin hmin
        (fun text key hkey ha => ?_) hlowest
      rw [hparse _ _ _ hkey ha, totalKey_widen_low hlo hbits]
    · refine bound_iff (P := (numericKey 64 bits ≤ ·))
        (Q := fun hi => totalKey 64 bits ≤ totalKey 64 (widenZero 0 hi)) hvmax hmax
        (fun text key hkey ha => ?_) hhighest
      rw [hparse _ _ _ hkey ha, totalKey_widen_high hhi hbits]
  rw [observed_f64_iff]
  cases hscalar with
  | f64 _ bits hbits =>
    by_cases h : isFiniteDouble bits = true
    · simp [TypedBetween, rangeText, h, hone bits hbits h]
    · simp [TypedBetween, rangeText, h]
  | string _ value =>
    by_cases h : isIsoCalendarDate value = true <;> simp [TypedBetween, rangeText, h]
  | null | bool | i64 | u64 | sequence | map => simp [TypedBetween, rangeText]

lemma dateRange_agrees : Observed (.dateRange pointer min max) scalar ↔
      TypedBetween .date (min.getD "0000-01-01".toList) (max.getD "9999-12-31".toList) scalar := by
  cases scalar with
  | string value =>
    by_cases hdate : isIsoCalendarDate value = true
    · have hlength : utf8Len value ≤ maxRankingValueBytes := by
        rw [← length_utf8, utf8_of_ascii (isAscii_of_isIsoCalendarDate hdate), length_map]
        obtain ⟨_, _, _, _, _, _, _, _, rfl, -⟩ := isIsoCalendarDate_shape hdate
        exact show 10 ≤ maxRankingValueBytes by decide
      obtain ⟨hfirst, hlast⟩ := date_between hdate
      generalize "0000-01-01".toList = first at hfirst ⊢
      generalize "9999-12-31".toList = last at hlast ⊢
      cases min <;> cases max <;>
        simp [Observed, TypedBetween, rankingScalarOf, rangeText, scalarMatches, hdate, hlength,
          hfirst, hlast]
    · by_cases h : utf8Len value ≤ maxRankingValueBytes <;>
        simp [Observed, TypedBetween, rankingScalarOf, rangeText, scalarMatches, hdate, h]
  | f64 bits =>
    by_cases h : isFiniteDouble bits = true <;>
      simp [Observed, TypedBetween, rankingScalarOf, rangeText, scalarMatches, h]
  | null | bool | i64 | u64 | sequence | map =>
    simp [Observed, TypedBetween, rankingScalarOf, rangeText, scalarMatches]

end Ranges

/-! ## §5 Exact values -/

variable {value : RankingScalar}

lemma observed_exact_iff {pointer : Option Text} {scalar : PropertyValue} :
    Observed (.exact pointer value) scalar ↔ rankingScalarOf scalar = some value := by
  constructor
  · rintro ⟨observed, hobserved, hmatch⟩
    rw [scalarMatches, decide_eq_true_iff] at hmatch
    rw [hobserved, hmatch]
  · intro h
    exact ⟨value, h, by simp [scalarMatches]⟩

/-- The kind of a scalar, as it is hashed. -/
def kindOf : PropertyValue → String
  | .null => "null"
  | .bool _ => "bool"
  | .i64 _ => "i64"
  | .u64 _ => "u64"
  | .f64 _ => "real"
  | .string value => if isIsoCalendarDate value then "date" else "string"
  | .sequence _ | .map _ => ""

lemma scalarIdentity_fst (value : PropertyValue) :
    (scalarIdentity value).1 = utf8 (kindOf value).toList := by
  cases value <;> rfl

lemma hexWord_inj {m : ℕ} (hn : n < 2 ^ 64) (hm : m < 2 ^ 64) (h : hexWord n = hexWord m) :
    n = m := by
  have hcompare := compare_hexWord hn hm
  rw [h, Std.ReflOrd.compare_self] at hcompare
  exact Std.LawfulEqOrd.eq_of_compare hcompare.symm

lemma int_toString_inj {a b : ℤ} (ha : -2 ^ 63 ≤ a ∧ a < 2 ^ 63) (hb : -2 ^ 63 ≤ b ∧ b < 2 ^ 63)
    (h : (toString a).toList = (toString b).toList) : a = b := by
  have hread := parseCanonicalI64_iff.mpr ⟨ha, rfl⟩
  rw [h, parseCanonicalI64_iff.mpr ⟨hb, rfl⟩] at hread
  exact (some.inj hread).symm

lemma nat_toString_inj {a b : ℕ} (ha : a < 2 ^ 64) (hb : b < 2 ^ 64)
    (h : (toString a).toList = (toString b).toList) : a = b := by
  have hread := parseUnsigned_toString ha
  rw [h, parseUnsigned_toString hb] at hread
  exact (some.inj hread).symm

variable {a b pv : PropertyValue}

/-- Scalars observed alike are alike. -/
theorem rankingScalarOf_inj {levels : ℕ} (ha : a.WellFormed levels) (hb : b.WellFormed levels')
    (h : rankingScalarOf a = some value) (h' : rankingScalarOf b = some value) : a = b := by
  have hf64 : ∀ {bits : ℕ} {value : RankingScalar}, rankingScalarOf (.f64 bits) = some value →
      value = .f64 (hexWord bits) := by
    intro bits value h
    rw [rankingScalarOf, ite_none_right_eq_some] at h
    exact (some.inj h.2).symm
  have hstring : ∀ {text : Text} {value : RankingScalar}, rankingScalarOf (.string text) = some value →
      value = if isIsoCalendarDate text then .date text else .string text := by
    intro text value h
    rw [rankingScalarOf, ite_none_right_eq_some] at h
    exact (some.inj h.2).symm
  cases ha with
  | null =>
    cases h
    cases hb with
    | null => rfl
    | f64 => cases hf64 h'
    | string => have := hstring h'; split at this <;> cases this
    | bool | i64 | u64 | sequence | map => cases h'
  | bool =>
    cases h
    cases hb with
    | bool => cases h'; rfl
    | f64 => cases hf64 h'
    | string => have := hstring h'; split at this <;> cases this
    | null | i64 | u64 | sequence | map => cases h'
  | i64 _ v hlow hhigh =>
    cases h
    cases hb with
    | i64 _ w hlow' hhigh' =>
      rw [rankingScalarOf, some.injEq, RankingScalar.i64.injEq] at h'
      rw [int_toString_inj ⟨hlow, hhigh⟩ ⟨hlow', hhigh'⟩ h'.symm]
    | f64 => cases hf64 h'
    | string => have := hstring h'; split at this <;> cases this
    | null | bool | u64 | sequence | map => cases h'
  | u64 _ v hv =>
    cases h
    cases hb with
    | u64 _ w hw =>
      rw [rankingScalarOf, some.injEq, RankingScalar.u64.injEq] at h'
      rw [nat_toString_inj hv hw h'.symm]
    | f64 => cases hf64 h'
    | string => have := hstring h'; split at this <;> cases this
    | null | bool | i64 | sequence | map => cases h'
  | f64 _ bits hbits =>
    obtain rfl := hf64 h
    cases hb with
    | f64 _ bits' hbits' =>
      have heq := hf64 h'
      rw [RankingScalar.f64.injEq] at heq
      rw [hexWord_inj hbits hbits' heq]
    | string => have := hstring h'; split at this <;> cases this
    | null | bool | i64 | u64 | sequence | map => cases h'
  | string _ text =>
    obtain rfl := hstring h
    cases hb with
    | string _ text' =>
      have heq := hstring h'
      split at heq <;> split at heq <;> cases heq <;> rfl
    | f64 => have := hf64 h'; split at this <;> cases this
    | null | bool | i64 | u64 | sequence | map => split at h' <;> cases h'
  | sequence | map => cases h

/-- Kind and bytes determine a scalar. -/
theorem scalarIdentity_inj {levels : ℕ} (ha : a.WellFormed levels) (hb : b.WellFormed levels')
    (hscalar : kindOf a ≠ "") (h : scalarIdentity a = scalarIdentity b) : a = b := by
  have hkind : kindOf a = kindOf b := by
    have hfst := congrArg Prod.fst h
    rw [scalarIdentity_fst, scalarIdentity_fst] at hfst
    exact String.toList_inj.mp (utf8_injective hfst)
  have hbytes := congrArg Prod.snd h
  -- a string is of one of two kinds, neither of which is another scalar's
  have hother : ∀ text : Text, ∀ kind ∈ ["null", "bool", "i64", "u64", "real", ""],
      kindOf (.string text) ≠ kind := by
    intro text
    rw [kindOf]
    split <;> decide
  cases ha with
  | null =>
    cases hb with
    | null => rfl
    | string _ text => exact absurd hkind.symm (hother text _ (by simp [kindOf]))
    | bool | i64 | u64 | f64 | sequence | map => simp [kindOf] at hkind
  | bool _ v =>
    cases hb with
    | bool _ w => cases v <;> cases w <;> simp [scalarIdentity] at hbytes ⊢
    | string _ text => exact absurd hkind.symm (hother text _ (by simp [kindOf]))
    | null | i64 | u64 | f64 | sequence | map => simp [kindOf] at hkind
  | i64 _ v hlow hhigh =>
    cases hb with
    | i64 _ w hlow' hhigh' =>
      have hword := leBytes_inj (by unfold wordOfInt; omega) (by unfold wordOfInt; omega) hbytes
      unfold wordOfInt at hword
      rw [show v = w by omega]
    | string _ text => exact absurd hkind.symm (hother text _ (by simp [kindOf]))
    | null | bool | u64 | f64 | sequence | map => simp [kindOf] at hkind
  | u64 _ v hv =>
    cases hb with
    | u64 _ w hw => rw [leBytes_inj hv hw hbytes]
    | string _ text => exact absurd hkind.symm (hother text _ (by simp [kindOf]))
    | null | bool | i64 | f64 | sequence | map => simp [kindOf] at hkind
  | f64 _ v hv =>
    cases hb with
    | f64 _ w hw => rw [leBytes_inj hv hw hbytes]
    | string _ text => exact absurd hkind.symm (hother text _ (by simp [kindOf]))
    | null | bool | i64 | u64 | sequence | map => simp [kindOf] at hkind
  | string _ text =>
    cases hb with
    | string _ text' => rw [utf8_injective hbytes]
    | null | bool | i64 | u64 | f64 | sequence | map =>
      exact absurd hkind (hother text _ (by simp [kindOf]))
  | sequence | map => exact absurd rfl hscalar

/-- The value a valid configured scalar stands for is observed as that scalar. -/
theorem rankingScalarOf_configured (hvalid : validateScalar value true = .ok ())
    (hpv : propertyValueFromRankingScalar value = .ok pv) :
    rankingScalarOf pv = some value ∧ pv.WellFormed 0 ∧ kindOf pv ≠ "" ∧
      (scalarIdentity pv).1.length + (scalarIdentity pv).2.length ≤ 5000 := by
  simp only [validateScalar, rejectIf_ok, Bool.not_eq_false] at hvalid
  have hkinds : ∀ kind ∈ ["null", "bool", "i64", "u64", "real", "date", "string"],
      (utf8 kind.toList).length ≤ 100 := by decide +kernel
  cases value with
  | null =>
    cases hpv
    exact ⟨rfl, .null _, by decide, by decide⟩
  | boolean flag =>
    cases hpv
    exact ⟨rfl, .bool _ _, by simp [kindOf], by cases flag <;> decide⟩
  | i64 text =>
    obtain ⟨v, hv⟩ := isSome_iff_exists.mp hvalid
    have hparse := (canonical_eq_some_iff.mp hv).1
    obtain ⟨hbounds, htext⟩ := parseCanonicalI64_iff.mp hv
    rw [propertyValueFromRankingScalar, parseI64, hparse] at hpv
    cases hpv
    refine ⟨by rw [rankingScalarOf, ← htext], .i64 _ _ hbounds.1 hbounds.2, by simp [kindOf], ?_⟩
    simp [scalarIdentity, length_utf8]
    decide
  | u64 text =>
    obtain ⟨key, hkey⟩ := isSome_iff_exists.mp hvalid
    obtain ⟨v, rfl, hv, rfl⟩ := parseCanonicalU64_iff.mp hkey
    rw [propertyValueFromRankingScalar, parseU64, parseUnsigned_toString hv] at hpv
    cases hpv
    refine ⟨rfl, .u64 _ _ hv, by simp [kindOf], ?_⟩
    simp [scalarIdentity, length_utf8]
    decide
  | f64 text =>
    obtain ⟨key, hkey⟩ := isSome_iff_exists.mp hvalid
    obtain ⟨bits, hbits, rfl, hfinite, -⟩ := parseCanonicalF64_eq_some_iff.mp hkey
    rw [propertyValueFromRankingScalar, parseF64Bits_hexWord hbits hfinite] at hpv
    cases hpv
    refine ⟨by rw [rankingScalarOf, if_pos hfinite], .f64 _ _ hbits, by simp [kindOf], ?_⟩
    simp [scalarIdentity, length_utf8]
    decide
  | string text =>
    simp only [Bool.and_eq_true, decide_eq_true_eq, Bool.not_eq_true'] at hvalid
    obtain ⟨hlength, hdate⟩ := hvalid
    cases hpv
    refine ⟨by simp [rankingScalarOf, hlength, hdate], .string _ _, by simp [kindOf, hdate], ?_⟩
    simp only [scalarIdentity, hdate, Bool.false_eq_true, if_false]
    have hkind := hkinds "string" (by decide)
    rw [length_utf8 text]
    unfold maxRankingValueBytes at hlength
    omega
  | date text =>
    have hlength : utf8Len text ≤ 10 := by
      rw [← length_utf8, utf8_of_ascii (isAscii_of_isIsoCalendarDate hvalid), length_map]
      obtain ⟨_, _, _, _, _, _, _, _, rfl, -⟩ := isIsoCalendarDate_shape hvalid
      exact le_refl 10
    cases hpv
    refine ⟨?_, .string _ _, by simp [kindOf, hvalid], ?_⟩
    · rw [rankingScalarOf, if_pos (hlength.trans (by decide)), if_pos hvalid]
    · simp only [scalarIdentity, hvalid, if_true]
      have hkind := hkinds "date" (by decide)
      rw [length_utf8 text]
      omega

lemma exact_agrees {scalar : PropertyValue} {levels : ℕ} (hscalar : scalar.WellFormed levels)
    {pointer : Option Text} (hvalid : validateScalar value true = .ok ())
    (hpv : propertyValueFromRankingScalar value = .ok pv) :
    Observed (.exact pointer value) scalar ↔ scalarIdentity pv = scalarIdentity scalar := by
  obtain ⟨hobserved, hwell, hkind, -⟩ := rankingScalarOf_configured hvalid hpv
  rw [observed_exact_iff]
  constructor
  · intro h
    rw [rankingScalarOf_inj hwell hscalar hobserved h]
  · intro h
    rw [← scalarIdentity_inj hwell hscalar hkind h, hobserved]

end Kwiry
