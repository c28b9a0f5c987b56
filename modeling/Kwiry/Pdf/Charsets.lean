import Kwiry.Foundations.CodeForms
import Kwiry.Pdf.Objects

/-!
# Legacy CJK Codes

`pdf/cmap.rs`: the operand of a show operator is cut into codes by their first bytes, and each code
is decoded on its own. The decoders are those of `encoding_rs`; what is assumed of them is the byte
structure of the encodings. GBK is decoded as GB18030, whose codes of four bytes are cut in two.
-/

namespace Kwiry.Pdf

open Foundations List

/-! ## §1 The charsets -/

inductive LegacyCharset where
  | shiftJis | eucJp | gbk | big5 | uhc
  deriving DecidableEq

def LegacyCharset.codeLen (charset : LegacyCharset) (first : UInt8) : ℕ :=
  match charset with
  | shiftJis =>
    if inRanges [(0x81, 0x9f), (0xe0, 0xfc)] first then 2 else 1
  | eucJp =>
    if first = 0x8e then 2
    else if first = 0x8f then 3
    else if inRanges [(0xa1, 0xfe)] first then 2
    else 1
  | gbk | big5 | uhc => if inRanges [(0x81, 0xfe)] first then 2 else 1

def stripSuffix (name suffix : Bytes) : Option Bytes :=
  if suffix <:+ name then some (name.take (name.length - suffix.length)) else none

def legacyTable : List (List String × LegacyCharset) :=
  [(["83pv-RKSJ", "90ms-RKSJ", "90msp-RKSJ", "90pv-RKSJ", "Add-RKSJ", "Ext-RKSJ"], .shiftJis),
    (["EUC"], .eucJp),
    (["GB-EUC", "GBpc-EUC", "GBK-EUC", "GBKp-EUC", "GBK2K"], .gbk),
    (["B5pc", "HKscs-B5", "ETen-B5", "ETenms-B5"], .big5),
    (["KSC-EUC", "KSCpc-EUC", "KSCms-UHC", "KSCms-UHC-HW"], .uhc)]

def legacyCharset (name : Bytes) : Option LegacyCharset :=
  let base := ((stripSuffix name (ascii "-H")).or (stripSuffix name (ascii "-V"))).getD name
  if ascii "Identity" <+: base ∨ ascii "Uni" <+: base then none
  else (legacyTable.find? fun entry => (entry.1.map ascii).contains base).map Prod.snd

/-! ## §2 Decoding -/

/-- `decode_without_bom_handling` of the encoding of each charset: the characters, and whether there
was an error. -/
abbrev Decoders := LegacyCharset → Bytes → Text × Bool

def replacementCharacter : Char := Char.ofNat 0xfffd

def decode (D : Decoders) (charset : LegacyCharset) (codeBytes : Bytes) : Text :=
  (D charset codeBytes).1.filter (· ≠ replacementCharacter)

/-- The codes of an operand, the last one cut short at its end. -/
def splitCodes (charset : LegacyCharset) : Bytes → List Bytes
  | [] => []
  | first :: rest =>
    (first :: rest.take (charset.codeLen first - 1)) ::
      splitCodes charset (rest.drop (charset.codeLen first - 1))
termination_by bytes => bytes.length
decreasing_by simp only [length_drop, length_cons]; omega

def decodeByCode (D : Decoders) (charset : LegacyCharset) (bytes : Bytes) : Text :=
  (splitCodes charset bytes).flatMap (decode D charset)

/-! ## §3 The byte structures -/

/-- The codes of Shift_JIS, EUC-JP, GB18030, Big5 and EUC-KR. -/
def byteForms : LegacyCharset → List CodeForm
  | .shiftJis =>
    [[[(0x00, 0x80), (0xa1, 0xdf)]],
      [[(0x81, 0x9f), (0xe0, 0xfc)], [(0x40, 0x7e), (0x80, 0xfc)]]]
  | .eucJp =>
    [[[(0x00, 0x7f)]], [[(0x8e, 0x8e)], [(0xa1, 0xdf)]],
      [[(0x8f, 0x8f)], [(0xa1, 0xfe)], [(0xa1, 0xfe)]], [[(0xa1, 0xfe)], [(0xa1, 0xfe)]]]
  | .gbk =>
    [[[(0x00, 0x80)]], [[(0x81, 0xfe)], [(0x40, 0x7e), (0x80, 0xfe)]],
      [[(0x81, 0xfe)], [(0x30, 0x39)], [(0x81, 0xfe)], [(0x30, 0x39)]]]
  | .big5 => [[[(0x00, 0x7f)]], [[(0x81, 0xfe)], [(0x40, 0x7e), (0xa1, 0xfe)]]]
  | .uhc => [[[(0x00, 0x7f)]], [[(0x81, 0xfe)], [(0x41, 0xfe)]]]

/-- What is assumed of the decoders: `index` has the characters of the codes that are mapped. -/
structure FollowsForms (D : Decoders) (index : LegacyCharset → Bytes → Option Text) : Prop where
  /-- Without an error, a string is read code by code from its beginning. -/
  decodes : ∀ charset bytes chars, D charset bytes = (chars, false) ↔
    decodeCodes (byteForms charset) (index charset) [] bytes = some chars
  /-- A string that ends within its first code is an error. -/
  truncated : ∀ first second, isPartial (byteForms .gbk) [first, second] = true →
    D .gbk [first, second] = ([replacementCharacter], true)
  /-- A code that is mapped is mapped to something. -/
  mapped : ∀ charset code chars, index charset code = some chars → chars ≠ []
  /-- Only a code of four bytes stands for the replacement character. -/
  replacement : ∀ charset code chars, index charset code = some chars → code.length < 4 →
    replacementCharacter ∉ chars

/-- Whether GB18030 reads four bytes somewhere: a lead byte is followed by an ASCII digit. -/
def hasFourByteCode (bytes : Bytes) : Bool :=
  (splitCodes .gbk bytes).any fun code => code.tail.any (inRanges [(0x30, 0x39)])

/-! ## §4 Code by code -/

variable {charset : LegacyCharset} {first : UInt8} {code : Bytes}

lemma splitCodes_append (h : (first :: code).length = charset.codeLen first) (rest : Bytes) :
    splitCodes charset (first :: code ++ rest) = (first :: code) :: splitCodes charset rest := by
  have hlength : charset.codeLen first - 1 = code.length := by
    rw [← h, length_cons, Nat.add_sub_cancel]
  rw [cons_append, splitCodes, hlength, take_left, drop_left]

lemma splitCodes_four {a b c d : UInt8} (ha : LegacyCharset.gbk.codeLen a = 2)
    (hc : LegacyCharset.gbk.codeLen c = 2) (rest : Bytes) :
    splitCodes .gbk ([a, b, c, d] ++ rest) = [a, b] :: [c, d] :: splitCodes .gbk rest := by
  have hfront := splitCodes_append (show [a, b].length = _ from ha.symm) ([c, d] ++ rest)
  rwa [splitCodes_append (show [c, d].length = _ from hc.symm)] at hfront

lemma codeLen_of_form {form : CodeForm} (hform : form ∈ byteForms charset)
    (hshort : form.length < 4) (h : inRanges (form.headD []) first = true) :
    charset.codeLen first = form.length := by
  have hall : ∀ form ∈ byteForms charset, form.length < 4 → ∀ n < 256,
      inRanges (form.headD []) (UInt8.ofNat n) = true →
        charset.codeLen (UInt8.ofNat n) = form.length := by
    cases charset <;> decide +kernel
  have hfirst := hall form hform hshort first.toNat first.toNat_lt
  rw [UInt8.ofNat_toNat] at hfirst
  exact hfirst h

/-- The codes that are as long as their first byte says. -/
theorem isCode_short (h : isCode (byteForms charset) code = true) (hshort : code.length < 4) :
    ∃ first rest, code = first :: rest ∧ code.length = charset.codeLen first ∧
      (charset = .gbk → rest.any (inRanges [(0x30, 0x39)]) = false) := by
  obtain ⟨form, hform, hmatch⟩ := any_eq_true.mp h
  simp only [Bool.and_eq_true, decide_eq_true_eq] at hmatch
  obtain ⟨hlength, hbegins⟩ := hmatch
  have hne : form ≠ [] := by
    have hforms : ∀ form ∈ byteForms charset, form ≠ [] := by cases charset <;> decide
    exact hforms form hform
  obtain ⟨ranges, form, rfl⟩ := exists_cons_of_ne_nil hne
  obtain ⟨first, rest, rfl⟩ : ∃ first rest, code = first :: rest :=
    exists_cons_of_length_pos (by rw [← hlength]; exact Nat.succ_pos _)
  rw [begins, Bool.and_eq_true] at hbegins
  refine ⟨first, rest, rfl, ?_, ?_⟩
  · rw [← hlength, codeLen_of_form hform (by rwa [hlength]) hbegins.1]
  · rintro rfl
    simp only [byteForms, mem_cons, cons.injEq, not_mem_nil, or_false] at hform
    rcases hform with ⟨-, rfl⟩ | ⟨-, rfl⟩ | ⟨-, rfl⟩
    · obtain rfl : rest = [] := length_eq_zero_iff.mp (Nat.succ.inj hlength).symm
      rfl
    · obtain ⟨trail, rfl⟩ := length_eq_one_iff.mp (Nat.succ.inj hlength).symm
      simp [begins, inRanges, UInt8.le_iff_toNat_le] at hbegins ⊢
      omega
    · rw [← hlength] at hshort
      exact absurd hshort (Nat.lt_irrefl 4)

/-- The codes of four bytes: two leads, with a digit each. -/
theorem isCode_long (h : isCode (byteForms charset) code = true) (hlong : ¬ code.length < 4) :
    charset = .gbk ∧ ∃ a b c d, code = [a, b, c, d] ∧
      (LegacyCharset.gbk.codeLen a = 2 ∧ isPartial (byteForms .gbk) [a, b] = true ∧
        inRanges [(0x30, 0x39)] b = true) ∧
      LegacyCharset.gbk.codeLen c = 2 ∧ isPartial (byteForms .gbk) [c, d] = true := by
  obtain ⟨form, hform, hmatch⟩ := any_eq_true.mp h
  simp only [Bool.and_eq_true, decide_eq_true_eq] at hmatch
  obtain ⟨hlength, hbegins⟩ := hmatch
  have hforms : ∀ form ∈ byteForms charset, ¬ form.length < 4 → charset = .gbk ∧
      form = [[(0x81, 0xfe)], [(0x30, 0x39)], [(0x81, 0xfe)], [(0x30, 0x39)]] := by
    cases charset <;> decide
  obtain ⟨rfl, rfl⟩ := hforms form hform (by rwa [hlength])
  refine ⟨rfl, ?_⟩
  match code, hlength with
  | [a, b, c, d], _ =>
    simp only [begins, Bool.and_eq_true, and_true] at hbegins
    obtain ⟨ha, hb, hc, hd⟩ := hbegins
    refine ⟨a, b, c, d, rfl, ⟨?_, ?_, hb⟩, ?_, ?_⟩
    · simp [LegacyCharset.codeLen, ha]
    · simp [isPartial, byteForms, begins, ha, hb]
    · simp [LegacyCharset.codeLen, hc]
    · simp [isPartial, byteForms, begins, hc, hd]

section

variable {D : Decoders} {index : LegacyCharset → Bytes → Option Text}

/-- What is decoded code by code against what is decoded at once, and the codes of four bytes. -/
structure Compared (D : Decoders) (charset : LegacyCharset) (bytes : Bytes) (chars : Text) :
    Prop where
  same : (charset = .gbk → hasFourByteCode bytes = false) → decodeByCode D charset bytes = chars
  length_le : (decodeByCode D charset bytes).length ≤ chars.length
  length_lt : charset = .gbk → hasFourByteCode bytes = true →
    (decodeByCode D charset bytes).length < chars.length

lemma decode_mapped (h : FollowsForms D index) {decoded : Text}
    (hindex : index charset code = some decoded) (hshort : code.length < 4)
    (hone : decodeCodes (byteForms charset) (index charset) [] code = some decoded) :
    decode D charset code = decoded := by
  rw [decode, (h.decodes charset code decoded).mpr hone, filter_eq_self]
  intro c hc
  refine decide_eq_true ?_
  rintro rfl
  exact h.replacement charset code decoded hindex hshort hc

lemma decode_truncated (h : FollowsForms D index) {second : UInt8}
    (hpart : isPartial (byteForms .gbk) [first, second] = true) :
    decode D .gbk [first, second] = [] := by
  rw [decode, h.truncated first second hpart]
  simp

lemma compared_of_decodeCodes (h : FollowsForms D index) {bytes : Bytes} {chars : Text}
    (hdecoded : decodeCodes (byteForms charset) (index charset) [] bytes = some chars) :
    Compared D charset bytes chars := by
  refine decodeCodes_induction (P := Compared D charset) ?_ ?_ hdecoded
  · constructor <;> simp [decodeByCode, hasFourByteCode, splitCodes]
  · intro code rest decoded chars hcode hindex hone ih
    by_cases hshort : code.length < 4
    · obtain ⟨first, tail, rfl, hlength, htail⟩ := isCode_short hcode hshort
      have hsplit := splitCodes_append hlength rest
      have hshow : decodeByCode D charset (first :: tail ++ rest) =
          decoded ++ decodeByCode D charset rest := by
        rw [decodeByCode, hsplit, flatMap_cons, decode_mapped h hindex hshort hone]
        rfl
      have hfour : charset = .gbk →
          hasFourByteCode (first :: tail ++ rest) = hasFourByteCode rest := by
        rintro rfl
        rw [hasFourByteCode, hsplit, any_cons, tail_cons, htail rfl, Bool.false_or]
        rfl
      constructor
      · intro hnone
        rw [hshow, ih.same fun hgbk => hfour hgbk ▸ hnone hgbk]
      · rw [hshow, length_append, length_append]
        exact Nat.add_le_add_left ih.length_le _
      · intro hgbk hsome
        rw [hshow, length_append, length_append]
        exact Nat.add_lt_add_left (ih.length_lt hgbk (hfour hgbk ▸ hsome)) _
    · obtain ⟨rfl, a, b, c, d, rfl, ⟨ha, hab, hb⟩, hc, hcd⟩ := isCode_long hcode hshort
      have hsplit := splitCodes_four (b := b) (d := d) ha hc rest
      have hfour : hasFourByteCode ([a, b, c, d] ++ rest) = true := by
        rw [hasFourByteCode, hsplit, any_cons, tail_cons, any_cons, hb, Bool.true_or, Bool.true_or]
      have hshow : decodeByCode D .gbk ([a, b, c, d] ++ rest) = decodeByCode D .gbk rest := by
        rw [decodeByCode, hsplit, flatMap_cons, flatMap_cons,
          decode_truncated h hab, decode_truncated h hcd]
        rfl
      have hpos := length_pos_iff.mpr (h.mapped .gbk _ _ hindex)
      have hle := ih.length_le
      constructor
      · intro hnone
        rw [hnone rfl] at hfour
        cases hfour
      · rw [hshow, length_append]
        omega
      · intro _ _
        rw [hshow, length_append]
        omega

/-- Decoding an operand code by code loses the characters of the codes of four bytes, and nothing
else. -/
theorem decodeByCode_eq_iff (h : FollowsForms D index) {name bytes : Bytes}
    {charset : LegacyCharset} (_ : legacyCharset name = some charset) {chars : Text}
    (hdecoded : D charset bytes = (chars, false)) :
    decodeByCode D charset bytes = chars ↔ (charset = .gbk → hasFourByteCode bytes = false) := by
  have hcompared := compared_of_decodeCodes h ((h.decodes charset bytes chars).mp hdecoded)
  refine ⟨fun heq hgbk => ?_, hcompared.same⟩
  by_contra hfour
  have hlt := hcompared.length_lt hgbk (Bool.not_eq_false _ ▸ hfour)
  rw [heq] at hlt
  exact lt_irrefl _ hlt

end

/-- Decoders that know ASCII, one code of two bytes and one of four. -/
def sampleIndex (_ : LegacyCharset) (code : Bytes) : Option Text :=
  if code = [0x95, 0x32, 0x82, 0x36] then some [Char.ofNat 0x20000]
  else if code = [0x82, 0xa0] then some ['あ']
  else
    match code with
    | [byte] => if byte < 0x80 then some [Char.ofNat byte.toNat] else none
    | _ => none

def sampleDecoders : Decoders := fun charset bytes =>
  match decodeCodes (byteForms charset) (sampleIndex charset) [] bytes with
  | some chars => (chars, false)
  | none => ([replacementCharacter], true)

lemma followsForms_sample : FollowsForms sampleDecoders sampleIndex where
  decodes charset bytes chars := by
    unfold sampleDecoders
    cases decodeCodes (byteForms charset) (sampleIndex charset) [] bytes <;> simp
  truncated first second h := by
    have hranges : inRanges [(0x81, 0xfe)] first = true ∧ inRanges [(0x30, 0x39)] second = true := by
      simpa [isPartial, byteForms, begins] using h
    have hlead : isCode (byteForms .gbk) [first] = false ∧
        isPartial (byteForms .gbk) [first] = true ∧
        isCode (byteForms .gbk) [first, second] = false := by
      simp [isCode, isPartial, byteForms, begins, inRanges, UInt8.le_iff_toNat_le] at hranges ⊢
      omega
    simp [sampleDecoders, decodeCodes, hlead, h]
  mapped charset code chars h := by
    unfold sampleIndex at h
    split at h
    · cases h
      exact cons_ne_nil _ _
    · split at h
      · cases h
        exact cons_ne_nil _ _
      · split at h
        · obtain ⟨-, hchars⟩ := Option.ite_none_right_eq_some.mp h
          exact Option.some.inj hchars ▸ cons_ne_nil _ _
        · cases h
  replacement charset code chars h hshort := by
    have hascii : ∀ n < 128, replacementCharacter ≠ Char.ofNat n := by decide
    unfold sampleIndex at h
    split at h
    next hfour => exact absurd hshort (by rw [hfour]; decide)
    split at h
    · cases h
      decide
    · split at h
      · obtain ⟨hlt, hchars⟩ := Option.ite_none_right_eq_some.mp h
        rw [← Option.some.inj hchars]
        exact fun hmem => hascii _ hlt (mem_singleton.mp hmem)
      · cases h

theorem decodeByCode_eq_iff_hiragana :
    decodeByCode sampleDecoders .shiftJis (ascii "a" ++ [0x82, 0xa0]) = ['a', 'あ'] :=
  (decodeByCode_eq_iff followsForms_sample
    (show legacyCharset (ascii "90ms-RKSJ-H") = some .shiftJis by decide) (by decide)).mpr
    (by decide)

theorem decodeByCode_fourBytes :
    FollowsForms sampleDecoders sampleIndex ∧ legacyCharset (ascii "GBK2K-H") = some .gbk ∧
      sampleDecoders .gbk [0x95, 0x32, 0x82, 0x36] = ([Char.ofNat 0x20000], false) ∧
      decodeByCode sampleDecoders .gbk [0x95, 0x32, 0x82, 0x36] = [] := by
  refine ⟨followsForms_sample, by decide, by decide, ?_⟩
  have hsplit := splitCodes_four (a := 0x95) (b := 0x32) (c := 0x82) (d := 0x36) (by decide)
    (by decide) []
  rw [append_nil, splitCodes] at hsplit
  rw [decodeByCode, hsplit]
  decide

end Kwiry.Pdf
