import Kwiry.Foundations.Runs
import Kwiry.Lexical

/-!
# Recognized Identities

When the normalized form of a technical identifier is itself recognized as one. Normalizing a
match lower-cases it character by character and respects every class of the pattern, so the
form is matched whole unless the match ended at a boundary that its surroundings made: a
separator before a word character, which is gone once the match stands alone.
-/

namespace Kwiry

open Foundations List

variable {T : CharTables}

/-! ## §1 The characters of a match -/

/-- The pattern between the word boundaries. -/
def identifierBody (T : CharTables) : Pattern :=
  .alt (cvePattern T) (.alt (rfcPattern T) compoundPattern)

lemma identifierBody_plain : (identifierBody T).Plain := by
  simp [identifierBody, cvePattern, rfcPattern, compoundPattern, literal, Pattern.Plain]

/-- The characters a match is made of. -/
def IsIdentifierChar (T : CharTables) (c : Char) : Prop :=
  c.toNat < 128 ∨ c = '\u017F' ∨ c = '\u212A' ∨ T.isDecimalDigit c = true

variable {c : Char}

lemma ascii_of_isAlphanum (h : c.isAlphanum = true) : c.toNat < 128 := by
  by_contra hc
  obtain ⟨halpha, hdigit, -⟩ := CharTables.beyond_ascii hc
  simp [Char.isAlphanum, halpha, hdigit] at h

lemma isIdentifierChar_of_start (h : isIdentifierStart c = true) : IsIdentifierChar T c := by
  simp only [isIdentifierStart, Bool.or_eq_true, beq_iff_eq] at h
  rcases h with (h | h) | h
  · exact .inl (ascii_of_isAlphanum h)
  · exact .inr (.inl h)
  · exact .inr (.inr (.inl h))

lemma isIdentifierChar_of_continue (h : isIdentifierContinue c = true) :
    IsIdentifierChar T c := by
  simp only [isIdentifierContinue, Bool.or_eq_true, beq_iff_eq] at h
  rcases h with (((((h | rfl) | rfl) | rfl) | rfl) | rfl) | rfl
  · exact isIdentifierChar_of_start h
  all_goals exact .inl (by decide +kernel)

lemma isIdentifierChar_of_letter {lower : Char} (hlower : lower.toNat < 128)
    (hupper : lower.toUpper.toNat < 128) (h : isAsciiLetterOf lower c = true) :
    IsIdentifierChar T c := by
  simp only [isAsciiLetterOf, Bool.or_eq_true, beq_iff_eq] at h
  rcases h with rfl | rfl
  · exact .inl hlower
  · exact .inl hupper

lemma mem_identifierBody_classes {p : Char → Bool} (h : p ∈ (identifierBody T).classes) :
    (∃ lower ∈ ['c', 'v', 'e', 'r', 'f'], p = isAsciiLetterOf lower) ∨
      (∃ separator ∈ ['-', ' '], p = fun c => c == separator) ∨
      p = (fun c => c == '-' || c == ' ') ∨ p = T.isDecimalDigit ∨ p = isIdentifierStart ∨
      p = isIdentifierContinue := by
  simp only [identifierBody, cvePattern, rfcPattern, compoundPattern, literal, Pattern.classes,
    mem_append, mem_singleton] at h
  simp only [mem_cons, not_mem_nil, or_false, exists_eq_or_imp, exists_eq_left]
  tauto

variable {N s t x y : Text}

lemma IsIdentifierChar.of_lang (h : (identifierBody T).Lang s) (hc : c ∈ s) :
    IsIdentifierChar T c := by
  obtain ⟨p, hp, hpc⟩ := h.mem_class hc
  rcases mem_identifierBody_classes hp with ⟨lower, hlower, rfl⟩ | ⟨separator, hsep, rfl⟩ | rfl |
    rfl | rfl | rfl
  · simp only [mem_cons, not_mem_nil, or_false] at hlower
    rcases hlower with rfl | rfl | rfl | rfl | rfl <;>
      exact isIdentifierChar_of_letter (by decide +kernel) (by decide) hpc
  · simp only [mem_cons, not_mem_nil, or_false] at hsep
    rw [beq_iff_eq.mp hpc]
    rcases hsep with rfl | rfl <;> exact .inl (by decide +kernel)
  · simp only [Bool.or_eq_true, beq_iff_eq] at hpc
    rcases hpc with rfl | rfl <;> exact .inl (by decide +kernel)
  · exact .inr (.inr (.inr hpc))
  · exact isIdentifierChar_of_start hpc
  · exact isIdentifierChar_of_continue hpc

/-! ## §2 Folding a match -/

/-- What folding makes of a character of a match. -/
def foldedChar (T : CharTables) (c : Char) : Char :=
  (T.foldChar c).headD c

/-- Folding a character of a match keeps it one character, in the classes it was in. -/
structure FoldsWithin (T : CharTables) (c : Char) : Prop where
  single : T.foldChar c = [foldedChar T c]
  classes : ∀ p ∈ (identifierBody T).classes, p (foldedChar T c) = p c
  word : T.isWord (foldedChar T c) = T.isWord c
  digit : (foldedChar T c).isDigit = c.isDigit
  alphabetic : T.isAlphabetic (foldedChar T c) = T.isAlphabetic c
  separator : isIdentifierSeparator (foldedChar T c) = isIdentifierSeparator c

lemma FoldsWithin.of_fixed (h : T.foldChar c = [c]) : FoldsWithin T c := by
  have hfolded : foldedChar T c = c := by simp [foldedChar, h]
  exact ⟨by rw [h, hfolded], fun p _ => by rw [hfolded], by rw [hfolded], by rw [hfolded],
    by rw [hfolded], by rw [hfolded]⟩

lemma FoldsWithin.of_ascii (hT : T.Lawful) (hc : c.toNat < 128) : FoldsWithin T c := by
  have hfold := hT.foldChar_ascii c hc
  have hfolded : foldedChar T c = c.toLower := by simp [foldedChar, hfold]
  have hlower : c.toLower.toNat < 128 :=
    CharTables.of_ascii (P := fun c => c.toLower.toNat < 128) (by decide +kernel) c hc
  refine ⟨by rw [hfold, hfolded], fun p hp => ?_, ?_, ?_, ?_, ?_⟩ <;> rw [hfolded]
  · rcases mem_identifierBody_classes hp with ⟨lower, hl, rfl⟩ | ⟨separator, hsep, rfl⟩ | rfl |
      rfl | rfl | rfl
    · exact CharTables.of_ascii (P := fun c => ∀ lower ∈ ['c', 'v', 'e', 'r', 'f'],
        isAsciiLetterOf lower c.toLower = isAsciiLetterOf lower c) (by decide +kernel) c hc lower hl
    · exact CharTables.of_ascii (P := fun c => ∀ separator ∈ ['-', ' '],
        (c.toLower == separator) = (c == separator)) (by decide +kernel) c hc separator hsep
    · exact CharTables.of_ascii (P := fun c => (c.toLower == '-' || c.toLower == ' ') =
        (c == '-' || c == ' ')) (by decide +kernel) c hc
    · rw [hT.decimalDigit_ascii c hc, hT.decimalDigit_ascii _ hlower]
      exact CharTables.of_ascii (P := fun c => c.toLower.isDigit = c.isDigit) (by decide +kernel) c hc
    · exact CharTables.of_ascii (P := fun c => isIdentifierStart c.toLower = isIdentifierStart c)
        (by decide +kernel) c hc
    · exact CharTables.of_ascii
        (P := fun c => isIdentifierContinue c.toLower = isIdentifierContinue c) (by decide +kernel) c hc
  · rw [hT.word_ascii c hc, hT.word_ascii _ hlower]
    exact CharTables.of_ascii (P := fun c => (c.toLower.isAlphanum || c.toLower == '_') =
      (c.isAlphanum || c == '_')) (by decide +kernel) c hc
  · exact CharTables.of_ascii (P := fun c => c.toLower.isDigit = c.isDigit) (by decide +kernel) c hc
  · rw [hT.alphabetic_ascii c hc, hT.alphabetic_ascii _ hlower]
    exact CharTables.of_ascii (P := fun c => c.toLower.isAlpha = c.isAlpha) (by decide +kernel) c hc
  · exact CharTables.of_ascii
      (P := fun c => isIdentifierSeparator c.toLower = isIdentifierSeparator c) (by decide +kernel) c hc

lemma FoldsWithin.kelvin (hT : T.Lawful) : FoldsWithin T '\u212A' := by
  obtain ⟨hfold, halphabetic, hword⟩ := hT.kelvin
  have hfolded : foldedChar T '\u212A' = 'k' := by simp [foldedChar, hfold]
  -- a decimal digit folds to itself, and the Kelvin sign does not
  have hdigit : T.isDecimalDigit '\u212A' = false := by
    by_contra hno
    have hself := (hT.decimalDigit _ (Bool.not_eq_false _ ▸ hno)).1
    rw [hfold] at hself
    exact absurd hself (by decide +kernel)
  refine ⟨by rw [hfold, hfolded], fun p hp => ?_, ?_, ?_, ?_, ?_⟩ <;> rw [hfolded]
  · rcases mem_identifierBody_classes hp with ⟨lower, hl, rfl⟩ | ⟨separator, hsep, rfl⟩ | rfl |
      rfl | rfl | rfl
    · simp only [mem_cons, not_mem_nil, or_false] at hl
      rcases hl with rfl | rfl | rfl | rfl | rfl <;> decide +kernel
    · simp only [mem_cons, not_mem_nil, or_false] at hsep
      rcases hsep with rfl | rfl <;> decide +kernel
    · decide +kernel
    · rw [hdigit, hT.decimalDigit_ascii 'k' (by decide +kernel)]
      decide +kernel
    · decide +kernel
    · decide +kernel
  · rw [hword, hT.word_ascii 'k' (by decide +kernel)]
    decide +kernel
  · decide +kernel
  · rw [halphabetic, hT.alphabetic_ascii 'k' (by decide +kernel)]
    decide +kernel
  · decide +kernel

lemma IsIdentifierChar.foldsWithin (hT : T.Lawful) (h : IsIdentifierChar T c) :
    FoldsWithin T c := by
  rcases h with hc | rfl | rfl | hdigit
  · exact .of_ascii hT hc
  · exact .of_fixed hT.longS.1
  · exact .kelvin hT
  · exact .of_fixed (hT.decimalDigit c hdigit).1

/-! ## §3 Matches are collapsed already -/

lemma collapse_word {w : Text} (hne : w ≠ []) (hall : ∀ c ∈ w, isWhitespace c = false) :
    collapseWhitespace w = w := by
  simp [collapseWhitespace, splitWhitespace_word hne hall, joinWith]

lemma collapse_append_space (hx : x ≠ []) (hall : ∀ c ∈ x, isWhitespace c = false)
    (hy : y ≠ []) (hcollapse : collapseWhitespace y = y) :
    collapseWhitespace (x ++ ' ' :: y) = x ++ ' ' :: y := by
  have hwords : splitWhitespace y ≠ [] := by
    intro hnil
    rw [collapseWhitespace, hnil] at hcollapse
    exact hy hcollapse.symm
  obtain ⟨w, ws, hsplit⟩ := exists_cons_of_ne_nil hwords
  rw [collapseWhitespace, hsplit] at hcollapse
  rw [collapseWhitespace, splitWhitespace_append (by decide +kernel), splitWhitespace_word hx hall, hsplit,
    singleton_append]
  conv_rhs => rw [← hcollapse]
  simp [joinWith]

lemma decimalDigit_not_whitespace (hT : T.Lawful) (h : T.isDecimalDigit c = true) :
    isWhitespace c = false := by
  by_contra hspace
  have htoken := hT.token_of_whitespace c (Bool.not_eq_false _ ▸ hspace)
  have hnumeric := (hT.decimalDigit c h).2.1
  simp [CharTables.isTokenChar, CharTables.isAlphanumeric, hnumeric] at htoken

lemma letter_not_whitespace (h : c.isAlphanum = true) : isWhitespace c = false :=
  CharTables.of_ascii (P := fun c => c.isAlphanum = true → isWhitespace c = false) (by decide +kernel) c
    (ascii_of_isAlphanum h) h

lemma literal_lang {letters : Text}
    (hletters : ∀ l ∈ letters, l.isAlphanum = true ∧ l.toUpper.isAlphanum = true)
    (hne : letters ≠ []) (h : (literal letters).Lang s) :
    s ≠ [] ∧ ∀ c ∈ s, isWhitespace c = false := by
  have hletter : ∀ l ∈ letters, ∀ c, isAsciiLetterOf l c = true → isWhitespace c = false := by
    intro l hl c hc
    simp only [isAsciiLetterOf, Bool.or_eq_true, beq_iff_eq] at hc
    rcases hc with rfl | rfl
    · exact letter_not_whitespace (hletters _ hl).1
    · exact letter_not_whitespace (hletters _ hl).2
  induction letters generalizing s with
  | nil => exact absurd rfl hne
  | cons l rest ih =>
    cases rest with
    | nil =>
      obtain ⟨c, rfl, hc⟩ := h
      refine ⟨by simp, fun d hd => ?_⟩
      rw [mem_singleton.mp hd]
      exact hletter l mem_cons_self c hc
    | cons l' rest =>
      obtain ⟨x, y, rfl, ⟨c, rfl, hc⟩, hy⟩ := h
      obtain ⟨-, hrest⟩ := ih (fun m hm => hletters m (mem_cons_of_mem _ hm)) (by simp) hy
        fun m hm => hletter m (mem_cons_of_mem _ hm)
      refine ⟨by simp, fun d hd => ?_⟩
      rcases mem_append.mp hd with hd | hd
      · rw [mem_singleton.mp hd]
        exact hletter l mem_cons_self c hc
      · exact hrest d hd

lemma digits_lang (hT : T.Lawful) {low : ℕ} {max : Option ℕ} (hlow : 0 < low)
    (h : (Pattern.rep T.isDecimalDigit low max).Lang s) :
    s ≠ [] ∧ ∀ c ∈ s, isWhitespace c = false := by
  refine ⟨?_, fun c hc => decimalDigit_not_whitespace hT (h.2.2 c hc)⟩
  rintro rfl
  exact absurd h.1 (Nat.not_le.mpr hlow)

lemma words_append (hx : x ≠ [] ∧ ∀ c ∈ x, isWhitespace c = false)
    (hy : ∀ c ∈ y, isWhitespace c = false) :
    x ++ y ≠ [] ∧ ∀ c ∈ x ++ y, isWhitespace c = false := by
  refine ⟨by simp [hx.1], fun c hc => ?_⟩
  rcases mem_append.mp hc with hc | hc
  · exact hx.2 c hc
  · exact hy c hc

lemma collapseWhitespace_of_lang (hT : T.Lawful) (h : (identifierBody T).Lang s) :
    collapseWhitespace s = s := by
  rcases h with hcve | hrfc | hcompound
  · obtain ⟨x, y, rfl, hx, hy⟩ := hcve
    have hx := literal_lang (by decide +kernel) (by simp) hx
    rcases hy with hdash | hspace
    · obtain ⟨_, _, rfl, ⟨c, rfl, hc⟩, year, _, rfl, hyear, _, number, rfl, ⟨d, rfl, hd⟩,
        hnumber⟩ := hdash
      have hyear := digits_lang hT (by decide +kernel) hyear
      have hnumber := digits_lang hT (by decide +kernel) hnumber
      rw [beq_iff_eq.mp hc, beq_iff_eq.mp hd]
      obtain ⟨hne, hall⟩ := words_append hx (y := '-' :: (year ++ '-' :: number)) (by
        intro e he
        simp only [mem_cons, mem_append] at he
        rcases he with rfl | he | rfl | he
        · decide +kernel
        · exact hyear.2 e he
        · decide +kernel
        · exact hnumber.2 e he)
      exact collapse_word hne hall
    · obtain ⟨_, _, rfl, ⟨c, rfl, hc⟩, year, _, rfl, hyear, _, number, rfl, ⟨d, rfl, hd⟩,
        hnumber⟩ := hspace
      have hyear := digits_lang hT (by decide +kernel) hyear
      have hnumber := digits_lang hT (by decide +kernel) hnumber
      rw [beq_iff_eq.mp hc, beq_iff_eq.mp hd]
      have hrest : collapseWhitespace (year ++ ' ' :: number) = year ++ ' ' :: number :=
        collapse_append_space hyear.1 hyear.2 hnumber.1 (collapse_word hnumber.1 hnumber.2)
      exact collapse_append_space hx.1 hx.2 (by simp) hrest
  · obtain ⟨x, _, rfl, hx, separator, number, rfl, hsep, hnumber⟩ := hrfc
    have hx := literal_lang (by decide +kernel) (by simp) hx
    have hnumber := digits_lang hT (by decide +kernel) hnumber
    obtain ⟨-, hlength, hclass⟩ := hsep
    have hlength := hlength 1 rfl
    cases separator with
    | nil =>
      obtain ⟨hne, hall⟩ := words_append hx hnumber.2
      exact collapse_word hne hall
    | cons c rest =>
      have hrest : rest = [] := by
        cases rest with
        | nil => rfl
        | cons d rest => simp at hlength
      subst hrest
      have hc := hclass c mem_cons_self
      simp only [Bool.or_eq_true, beq_iff_eq] at hc
      rcases hc with rfl | rfl
      · obtain ⟨hne, hall⟩ := words_append hx (y := '-' :: number) (by
          intro e he
          rcases mem_cons.mp he with rfl | he
          · decide +kernel
          · exact hnumber.2 e he)
        exact collapse_word hne hall
      · exact collapse_append_space hx.1 hx.2 hnumber.1 (collapse_word hnumber.1 hnumber.2)
  · have hnonspace : ∀ c, isIdentifierContinue c = true → isWhitespace c = false := by
      intro c hc
      simp only [isIdentifierContinue, isIdentifierStart, Bool.or_eq_true, beq_iff_eq] at hc
      rcases hc with ((((((((h | rfl) | rfl)) | rfl) | rfl) | rfl) | rfl) | rfl) | rfl
      · exact letter_not_whitespace h
      all_goals decide +kernel
    obtain ⟨_, y, rfl, ⟨c, rfl, hc⟩, hy⟩ := hcompound
    refine collapse_word (by simp) fun d hd => ?_
    rcases mem_append.mp hd with hd | hd
    · rw [mem_singleton.mp hd]
      exact hnonspace c (by simp [isIdentifierContinue, hc])
    · exact hnonspace d (hy.2.2 d hd)

/-! ## §4 The preferred stop of a match alone -/

lemma ends_identifierPattern (prev : Option Char) (t : Text) :
    (identifierPattern T).ends prev t =
      if Pattern.boundaryAt T.isWord prev t 0 then
        ((identifierBody T).ends prev t).filter (Pattern.boundaryAt T.isWord prev t)
      else [] := by
  rw [← Pattern.ends_seq_boundary, ← Pattern.ends_boundary_seq]
  rfl

lemma head?_filter_eq {q : ℕ → Bool} {stops : List ℕ} {n : ℕ}
    (h : (stops.filter q).head? = some n) :
    ∃ before after, stops = before ++ n :: after ∧ q n = true ∧ ∀ m ∈ before, q m = false := by
  rw [head?_filter] at h
  obtain ⟨hq, before, after, hstops, hbefore⟩ := find?_eq_some_iff_append.mp h
  exact ⟨before, after, hstops, hq, fun m hm => by simpa using hbefore m hm⟩

lemma lang_head_word (hT : T.Lawful) (h : (identifierBody T).Lang s) :
    ∃ c rest, s = c :: rest ∧ T.isWord c = true := by
  have hstart : ∀ c, isIdentifierStart c = true → T.isWord c = true := by
    intro c hc
    simp only [isIdentifierStart, Bool.or_eq_true, beq_iff_eq] at hc
    rcases hc with (hc | rfl) | rfl
    · rw [hT.word_ascii c (ascii_of_isAlphanum hc), hc]
      rfl
    · exact hT.longS.2.2
    · exact hT.kelvin.2.2
  have hletter : ∀ lower ∈ ['c', 'r'], ∀ c, isAsciiLetterOf lower c = true → T.isWord c = true := by
    intro lower hlower c hc
    refine hstart c ?_
    simp only [isAsciiLetterOf, Bool.or_eq_true, beq_iff_eq] at hc
    simp only [mem_cons, not_mem_nil, or_false] at hlower
    rcases hlower with rfl | rfl <;> rcases hc with rfl | rfl <;> decide +kernel
  rcases h with ⟨_, y, rfl, ⟨_, z, rfl, ⟨c, rfl, hc⟩, -⟩, -⟩ |
    ⟨_, y, rfl, ⟨_, z, rfl, ⟨c, rfl, hc⟩, -⟩, -⟩ | ⟨_, y, rfl, ⟨c, rfl, hc⟩, -⟩
  · exact ⟨c, z ++ y, by simp, hletter 'c' (by simp) c hc⟩
  · exact ⟨c, z ++ y, by simp, hletter 'r' (by simp) c hc⟩
  · exact ⟨c, y, by simp, hstart c hc⟩

/-- Boundaries inside a match do not depend on what surrounds it. -/
theorem boundaryAt_folded (prev : Option Char) {n m : ℕ}
    (hword : ∀ c ∈ t.take n, T.isWord (foldedChar T c) = T.isWord c) (hm : 0 < m) (hmn : m < n) :
    Pattern.boundaryAt T.isWord none ((t.take n).map (foldedChar T)) m =
      Pattern.boundaryAt T.isWord prev t m := by
  obtain ⟨m, rfl⟩ : ∃ k, m = k + 1 := ⟨m - 1, by omega⟩
  have hat : ∀ k < n, Pattern.holdsAt T.isWord ((t.take n).map (foldedChar T))[k]? =
      Pattern.holdsAt T.isWord t[k]? := by
    intro k hk
    rw [getElem?_map, getElem?_take_of_lt hk]
    cases hget : t[k]? with
    | none => rfl
    | some c =>
      refine hword c ?_
      rw [← getElem?_take_of_lt hk] at hget
      exact mem_of_getElem? hget
  simp only [Pattern.boundaryAt, Pattern.charBefore, head?_drop]
  rw [hat m (by omega), hat (m + 1) hmn]

/-- A match that stands alone, folded, is matched whole if it ends in a word character. -/
theorem ends_folded_iff (hT : T.Lawful) {prev : Option Char} {n : ℕ} (hn : 0 < n)
    (h : ((identifierPattern T).ends prev t).head? = some n) :
    (((identifierPattern T).ends none ((t.take n).map (foldedChar T))).head? = some n ↔
      ∀ c ∈ (t.take n).getLast?, T.isWord c = true) := by
  rw [ends_identifierPattern] at h
  split at h
  swap
  · cases h
  rename_i hstart
  obtain ⟨before, after, hstops, hboundary, hbefore⟩ := head?_filter_eq h
  have hmatch : n ∈ (identifierBody T).ends prev t := by
    rw [hstops]
    simp
  obtain ⟨hle, hlang⟩ := Pattern.ends_lang hmatch
  have hchars := fun c (hc : c ∈ t.take n) => (IsIdentifierChar.of_lang hlang hc).foldsWithin hT
  set alone := (t.take n).map (foldedChar T) with halone
  have hlength : alone.length = n := by simp [halone, hle]
  -- the stops of the body that still fit
  have hbody : (identifierBody T).ends none alone = (before ++ n :: after).filter (· ≤ n) := by
    rw [halone, Pattern.ends_map identifierBody_plain none (foldedChar T) (t.take n)
      (fun p hp c hc => (hchars c hc).classes p hp), Pattern.ends_take identifierBody_plain,
      Pattern.ends_prev identifierBody_plain none prev, hstops]
  have hfirst : Pattern.boundaryAt T.isWord none alone 0 = true := by
    obtain ⟨c, rest, htake, hc⟩ := lang_head_word hT hlang
    have hword := (hchars c (by rw [htake]; exact mem_cons_self)).word
    simp [Pattern.boundaryAt, Pattern.charBefore, Pattern.holdsAt, halone, htake, hword, hc]
  have hlast : Pattern.boundaryAt T.isWord none alone n = true ↔
      ∀ c ∈ (t.take n).getLast?, T.isWord c = true := by
    obtain ⟨k, rfl⟩ : ∃ k, n = k + 1 := ⟨n - 1, by omega⟩
    have hget : (t.take (k + 1)).getLast? = t[k]? := by
      rw [getLast?_eq_getElem?, length_take, Nat.min_eq_left hle, Nat.add_sub_cancel,
        getElem?_take_of_lt (Nat.lt_succ_self k)]
    have hdrop : (alone.drop (k + 1)).head? = none := by
      rw [drop_eq_nil_of_le (by rw [hlength])]
      rfl
    have hknow : k < t.length := hle
    have hmem : t[k] ∈ t.take (k + 1) := by
      refine mem_of_getElem? (i := k) ?_
      rw [getElem?_take_of_lt (Nat.lt_succ_self k), getElem?_eq_getElem hknow]
    have hbeforeEnd : Pattern.charBefore none alone (k + 1) = some (foldedChar T t[k]) := by
      simp only [Pattern.charBefore, halone, getElem?_map,
        getElem?_take_of_lt (Nat.lt_succ_self k), getElem?_eq_getElem hknow,
        Option.map_some]
    rw [hget, getElem?_eq_getElem hknow]
    simp only [Pattern.boundaryAt, hbeforeEnd, hdrop, Pattern.holdsAt, Option.any_some,
      Option.any_none, (hchars _ hmem).word]
    simp
  -- stops preferred to the match fail inside it as they failed in the text
  have hearlier : ∀ m ∈ before.filter (· ≤ n), Pattern.boundaryAt T.isWord none alone m = false := by
    intro m hm
    obtain ⟨hmem, hmn⟩ := mem_filter.mp hm
    have hne : m ≠ n := by
      rintro rfl
      rw [hbefore m hmem] at hboundary
      cases hboundary
    have hpos : 0 < m := by
      have hstop : m ∈ (identifierBody T).ends prev t := by
        rw [hstops]
        exact mem_append_left _ hmem
      obtain ⟨-, hlangm⟩ := Pattern.ends_lang hstop
      obtain ⟨c, rest, htake, -⟩ := lang_head_word hT hlangm
      rcases Nat.eq_zero_or_pos m with rfl | hpos
      · rw [take_zero] at htake
        cases htake
      · exact hpos
    rw [halone, boundaryAt_folded prev (fun c hc => (hchars c hc).word) hpos
      (lt_of_le_of_ne (by simpa using hmn) hne)]
    exact hbefore m hmem
  rw [ends_identifierPattern, if_pos hfirst, hbody, ← hlast, filter_append,
    filter_append, filter_eq_nil_iff.mpr (by simpa using hearlier), nil_append,
    filter_cons_of_pos (by simp)]
  constructor
  · intro hhead
    exact (mem_filter.mp (mem_of_mem_head? hhead)).2
  · intro hend
    rw [filter_cons_of_pos hend]
    rfl

/-! ## §5 Identifiers in themselves -/

lemma mem_dedupFirst {α : Type} [DecidableEq α] {a : α} {l : List α} :
    a ∈ dedupFirst l ↔ a ∈ l := by
  induction l with
  | nil => rfl
  | cons b rest ih =>
    simp only [dedupFirst, mem_cons, mem_filter, ih, decide_eq_true_eq]
    by_cases hab : a = b
    · simp [hab]
    · simp [hab]

lemma mem_technicalIdentifiers :
    N ∈ technicalIdentifiers T t ↔ ∃ span, (span, N) ∈ technicalIdentifierSpans T t := by
  simp [technicalIdentifiers, mem_dedupFirst]

/-- What a span of a text is: a preferred stop that is taken as an identifier, folded character by
character. -/
structure IsIdentifierSpan (T : CharTables) (t : Text) (span : ℕ × ℕ) (N : Text) : Prop where
  pos : 0 < span.2
  bound : span.1 + span.2 ≤ t.length
  stop : ((identifierPattern T).ends (t.take span.1).getLast? (t.drop span.1)).head? = some span.2
  lang : (identifierBody T).Lang (spanText t span)
  technical : isTechnicalCandidate T (spanText t span) = true
  folded : N = (spanText t span).map (foldedChar T)
  short : utf8Len N ≤ maxNormalizedExactBytes

lemma fold_of_lang (hT : T.Lawful) (h : (identifierBody T).Lang s) :
    T.fold s = s.map (foldedChar T) := by
  rw [CharTables.fold_eq_flatMap, flatMap_congr fun c hc =>
    ((IsIdentifierChar.of_lang h hc).foldsWithin hT).single]
  exact flatMap_pure_eq_map _ _

lemma isIdentifierSpan_of_mem (hT : T.Lawful) {span : ℕ × ℕ}
    (h : (span, N) ∈ technicalIdentifierSpans T t) : IsIdentifierSpan T t span N := by
  obtain ⟨span', hspan, hN⟩ := mem_filterMap.mp h
  simp only at hN
  split at hN
  swap
  · cases hN
  rename_i htechnical
  obtain ⟨N', hnormalized, hpair⟩ := Option.map_eq_some_iff.mp hN
  cases hpair
  obtain ⟨hpos, hbound, hstop⟩ := Pattern.spans_spec hspan
  have hmem := mem_of_mem_head? hstop
  rw [ends_identifierPattern] at hmem
  split at hmem
  swap
  · cases hmem
  have hlang : (identifierBody T).Lang (spanText t span) :=
    (Pattern.ends_lang (mem_filter.mp hmem).1).2
  refine ⟨hpos, hbound, hstop, hlang, htechnical, ?_, ?_⟩
  all_goals
    unfold normalizeRaw at hnormalized
    simp only [collapseWhitespace_of_lang hT hlang] at hnormalized
    split at hnormalized
    · cases hnormalized
  · cases hnormalized
    exact fold_of_lang hT hlang
  · rename_i hshort
    cases hnormalized
    simp only [Bool.or_eq_true, decide_eq_true_eq, not_or, not_lt] at hshort
    exact hshort.2

lemma any_congr_mem {α : Type} {p q : α → Bool} {l : List α}
    (h : ∀ a ∈ l, p a = q a) : l.any p = l.any q := by
  rw [Bool.eq_iff_iff, any_eq_true, any_eq_true]
  refine exists_congr fun a => and_congr_right fun ha => ?_
  rw [h a ha]

lemma mem_technicalIdentifiers_self_iff (hT : T.Lawful) {span : ℕ × ℕ}
    (h : (span, N) ∈ technicalIdentifierSpans T t) :
    N ∈ technicalIdentifiers T N ↔ ∀ c ∈ (spanText t span).getLast?, T.isWord c = true := by
  have hspan := isIdentifierSpan_of_mem hT h
  have htake : (spanText t span).length = span.2 := by
    rw [spanText, length_take, length_drop]
    have := hspan.bound
    omega
  have hlength : N.length = span.2 := by rw [hspan.folded, length_map, htake]
  have hne : N ≠ [] := by
    rintro rfl
    exact absurd hlength (Nat.ne_of_lt hspan.pos)
  refine Iff.trans ?_ (ends_folded_iff hT hspan.pos hspan.stop)
  change _ ↔ ((identifierPattern T).ends none ((spanText t span).map (foldedChar T))).head? =
    some span.2
  rw [← hspan.folded, mem_technicalIdentifiers]
  constructor
  · rintro ⟨span', hmem⟩
    -- a span as long as the text is the whole text
    have hspan' := isIdentifierSpan_of_mem hT hmem
    have hlength' : N.length = span'.2 := by
      have hbound := hspan'.bound
      conv_lhs => rw [hspan'.folded]
      rw [length_map, spanText, length_take, length_drop]
      omega
    have hzero : span'.1 = 0 := by
      have hbound := hspan'.bound
      omega
    have hstop := hspan'.stop
    rw [hzero, ← hlength', hlength] at hstop
    exact hstop
  · intro hstop
    rw [← hlength] at hstop
    refine ⟨(0, N.length), mem_filterMap.mpr ⟨(0, N.length), Pattern.spans_whole hne hstop, ?_⟩⟩
    have hchars := fun c (hc : c ∈ spanText t span) =>
      (IsIdentifierChar.of_lang hspan.lang hc).foldsWithin hT
    have hself : spanText N (0, N.length) = N := by simp [spanText]
    have htechnical : isTechnicalCandidate T N = true := by
      rw [← hspan.technical]
      unfold isTechnicalCandidate
      rw [hspan.folded, any_map, any_map, any_map]
      congr 1
      · exact any_congr_mem fun c hc => (hchars c hc).digit
      congr 1
      · exact any_congr_mem fun c hc => (hchars c hc).alphabetic
      · exact any_congr_mem fun c hc => (hchars c hc).separator
    have hlang : (identifierBody T).Lang N := by
      have hmem := mem_of_mem_head? hstop
      rw [ends_identifierPattern] at hmem
      split at hmem
      · simpa using (Pattern.ends_lang (mem_filter.mp hmem).1).2
      · cases hmem
    have hfixed : T.fold N = N := by
      rw [CharTables.fold_eq_flatMap]
      refine (flatMap_congr fun d hd => ?_).trans (flatMap_singleton' N)
      rw [hspan.folded] at hd
      obtain ⟨c, hc, rfl⟩ := mem_map.mp hd
      exact hT.foldChar_foldChar c _ (by rw [(hchars c hc).single]; exact mem_singleton_self _)
    have hnormalized : normalizeRaw T N = some N := by
      simp [normalizeRaw, collapseWhitespace_of_lang hT hlang, hfixed, hne, hspan.short]
    simp only [hself, htechnical, if_true, hnormalized, Option.map_some]

end Kwiry
