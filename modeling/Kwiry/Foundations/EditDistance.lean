import Mathlib.Data.List.Basic
import Mathlib.Tactic.Ring

/-!
# Edit Distance

The Levenshtein distance of two lists, and the pairs of lists that one edit takes into each other.
-/

namespace Kwiry.Foundations

open List

variable {A : Type*} [DecidableEq A]

/-- The least number of insertions, deletions and substitutions that turn one list into another. -/
def levenshtein : List A → List A → ℕ
  | [], right => right.length
  | left, [] => left.length
  | a :: left, b :: right =>
    min (1 + levenshtein left (b :: right))
      (min (1 + levenshtein (a :: left) right)
        ((if a = b then 0 else 1) + levenshtein left right))

/-- One edit, somewhere in a list. -/
inductive Edit : List A → List A → Prop where
  | insertion (b : A) (rest : List A) : Edit rest (b :: rest)
  | deletion (a : A) (rest : List A) : Edit (a :: rest) rest
  | substitution {a b : A} (rest : List A) (hne : a ≠ b) : Edit (a :: rest) (b :: rest)
  | behind (a : A) {left right : List A} (h : Edit left right) : Edit (a :: left) (a :: right)

@[simp] lemma levenshtein_nil_left (right : List A) : levenshtein [] right = right.length := by
  cases right <;> simp [levenshtein]

@[simp] lemma levenshtein_nil_right (left : List A) : levenshtein left [] = left.length := by
  cases left <;> simp [levenshtein]

lemma levenshtein_cons (a b : A) (left right : List A) :
    levenshtein (a :: left) (b :: right) =
      min (1 + levenshtein left (b :: right))
        (min (1 + levenshtein (a :: left) right)
          ((if a = b then 0 else 1) + levenshtein left right)) := by
  rw [levenshtein]

variable {left right : List A}

lemma levenshtein_eq_zero_iff : levenshtein left right = 0 ↔ left = right := by
  induction left generalizing right with
  | nil => simp [eq_comm]
  | cons a left ih =>
    cases right with
    | nil => simp
    | cons b right =>
      rw [levenshtein_cons]
      by_cases hab : a = b
      · simp only [hab, if_true, cons.injEq, true_and, ← ih]
        omega
      · simp only [hab, if_false, cons.injEq, false_and, iff_false]
        omega

omit [DecidableEq A] in
lemma Edit.ne (h : Edit left right) : left ≠ right := by
  induction h with
  | insertion b rest | deletion a rest => exact fun h => absurd (congrArg length h) (by simp)
  | substitution rest hne => exact fun h => hne (cons.inj h).1
  | behind a h ih => exact fun h => ih (cons.inj h).2

omit [DecidableEq A] in
lemma Edit.length_le (h : Edit left right) :
    left.length ≤ right.length + 1 ∧ right.length ≤ left.length + 1 := by
  induction h with
  | insertion b rest => exact ⟨Nat.le_add_right rest.length 2, le_refl _⟩
  | deletion a rest => exact ⟨le_refl _, Nat.le_add_right rest.length 2⟩
  | substitution => simp
  | behind _ _ ih => simpa using ih

omit [DecidableEq A] in
lemma edit_cons_self {a : A} : Edit (a :: left) (a :: right) ↔ Edit left right := by
  refine ⟨fun h => ?_, .behind a⟩
  cases h with
  | insertion => exact .insertion a left
  | deletion => exact .deletion a right
  | substitution _ hne => exact absurd rfl hne
  | behind _ h => exact h

omit [DecidableEq A] in
lemma edit_cons_ne {a b : A} (hab : a ≠ b) :
    Edit (a :: left) (b :: right) ↔ right = a :: left ∨ left = b :: right ∨ left = right := by
  constructor
  · intro h
    cases h with
    | insertion => exact .inl rfl
    | deletion => exact .inr (.inl rfl)
    | substitution => exact .inr (.inr rfl)
    | behind => exact absurd rfl hab
  · rintro (rfl | rfl | rfl)
    · exact .insertion b _
    · exact .deletion a _
    · exact .substitution _ hab

omit [DecidableEq A] in
lemma edit_nil_left : Edit [] right ↔ right.length = 1 := by
  constructor
  · intro h
    cases h
    rfl
  · intro h
    obtain ⟨b, rfl⟩ := length_eq_one_iff.mp h
    exact .insertion b []

omit [DecidableEq A] in
lemma edit_nil_right : Edit left [] ↔ left.length = 1 := by
  constructor
  · intro h
    cases h
    rfl
  · intro h
    obtain ⟨a, rfl⟩ := length_eq_one_iff.mp h
    exact .deletion a []

lemma levenshtein_le_one_iff : levenshtein left right ≤ 1 ↔ left = right ∨ Edit left right := by
  induction left generalizing right with
  | nil =>
    rw [levenshtein_nil_left, edit_nil_left, Nat.le_one_iff_eq_zero_or_eq_one,
      length_eq_zero_iff, eq_comm]
  | cons a left ih =>
    induction right with
    | nil =>
      rw [levenshtein_nil_right, edit_nil_right, Nat.le_one_iff_eq_zero_or_eq_one,
        length_eq_zero_iff]
    | cons b right =>
      have hdelete : 1 + levenshtein left (b :: right) ≤ 1 ↔ left = b :: right := by
        rw [← levenshtein_eq_zero_iff]
        omega
      have hinsert : 1 + levenshtein (a :: left) right ≤ 1 ↔ a :: left = right := by
        rw [← levenshtein_eq_zero_iff]
        omega
      rw [levenshtein_cons, min_le_iff, min_le_iff, hdelete, hinsert]
      by_cases hab : a = b
      · subst hab
        rw [if_pos rfl, Nat.zero_add, ih, edit_cons_self, cons.injEq]
        constructor
        · rintro (rfl | rfl | h)
          · exact .inr (.deletion a right)
          · exact .inr (.insertion a left)
          · simpa using h
        · intro h
          exact .inr (.inr (by simpa using h))
      · have hsame : 1 + levenshtein left right ≤ 1 ↔ left = right := by
          rw [← levenshtein_eq_zero_iff]
          omega
        rw [if_neg hab, hsame, edit_cons_ne hab, cons.injEq]
        constructor
        · rintro (h | h | h)
          · exact .inr (.inr (.inl h))
          · exact .inr (.inl h.symm)
          · exact .inr (.inr (.inr h))
        · rintro (⟨h, -⟩ | h | h | h)
          · exact absurd h hab
          · exact .inr (.inl h.symm)
          · exact .inl h
          · exact .inr (.inr h)

lemma levenshtein_eq_one_iff : levenshtein left right = 1 ↔ Edit left right := by
  have hone : levenshtein left right ≤ 1 ↔ left = right ∨ Edit left right := levenshtein_le_one_iff
  have hzero : levenshtein left right = 0 ↔ left = right := levenshtein_eq_zero_iff
  constructor
  · intro h
    rcases hone.mp h.le with heq | hedit
    · rw [hzero.mpr heq] at h
      cases h
    · exact hedit
  · intro h
    have hle := hone.mpr (.inr h)
    have hne : levenshtein left right ≠ 0 := fun h0 => h.ne (hzero.mp h0)
    omega

end Kwiry.Foundations
