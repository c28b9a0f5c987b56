import Kwiry.Foundations.Runs

/-!
# Words Between Whitespace

What joining, trimming and cutting does to the words of a text: nothing, as long as only whitespace
is added or removed between them. The items of a list are those of its classes, one after the
other.
-/

namespace Kwiry.Foundations

open List

/-! ## §1 Words -/

variable {c : Char}

@[simp] lemma splitWhitespace_nil : splitWhitespace [] = [] := rfl

lemma splitWhitespace_cons (hc : isWhitespace c = true) (t : Text) :
    splitWhitespace (c :: t) = splitWhitespace t :=
  runs_cons_of_neg (by simp [hc])

lemma splitWhitespace_blank {s : Text} (hs : ∀ c ∈ s, isWhitespace c = true) (t : Text) :
    splitWhitespace (s ++ t) = splitWhitespace t :=
  runs_append_of_none fun c hc => by simp [hs c hc]

lemma splitWhitespace_append_blank (s : Text) {t : Text}
    (ht : ∀ c ∈ t, isWhitespace c = true) : splitWhitespace (s ++ t) = splitWhitespace s := by
  cases t with
  | nil => rw [append_nil]
  | cons c rest =>
    have hrest : splitWhitespace rest = [] := by
      have hblank := splitWhitespace_blank (fun d hd => ht d (mem_cons_of_mem c hd)) ([] : Text)
      rwa [append_nil] at hblank
    rw [splitWhitespace_append (ht c mem_cons_self), hrest, append_nil]

lemma splitWhitespace_append_of_getLast {s : Text} (hs : s.getLast? = some c)
    (hc : isWhitespace c = true) (t : Text) :
    splitWhitespace (s ++ t) = splitWhitespace s ++ splitWhitespace t := by
  obtain ⟨front, rfl⟩ : ∃ front, s = front ++ [c] :=
    ⟨s.dropLast, (dropLast_append_getLast? c hs).symm⟩
  rw [append_assoc, singleton_append, splitWhitespace_append hc,
    splitWhitespace_append hc, splitWhitespace_nil, append_nil]

lemma splitWhitespace_trim (t : Text) : splitWhitespace (trim t) = splitWhitespace t := by
  have hparts : ∀ u : Text, u = (u.reverse.dropWhile isWhitespace).reverse ++
      (u.reverse.takeWhile isWhitespace).reverse := by
    intro u
    rw [← reverse_append, takeWhile_append_dropWhile, reverse_reverse]
  rw [← splitWhitespace_dropWhile t]
  conv_rhs => rw [hparts (t.dropWhile isWhitespace)]
  refine (splitWhitespace_append_blank _ ?_).symm
  intro c hc
  exact mem_takeWhile_imp (mem_reverse.mp hc)

lemma joinWith_cons_cons (sep first second : Text) (rest : List Text) :
    joinWith sep (first :: second :: rest) = first ++ sep ++ joinWith sep (second :: rest) := by
  simp [joinWith]

lemma not_mem_joinWith {sep : Text} (hsep : c ∉ sep) {parts : List Text}
    (hparts : ∀ part ∈ parts, c ∉ part) : c ∉ joinWith sep parts := by
  induction parts with
  | nil => simp [joinWith]
  | cons first parts ih =>
    obtain ⟨hfirst, hrest⟩ := forall_mem_cons.mp hparts
    cases parts with
    | nil => simpa [joinWith] using hfirst
    | cons second parts =>
      rw [joinWith_cons_cons, mem_append, mem_append]
      exact fun h => h.elim (fun h => h.elim hfirst hsep) (ih hrest)

/-- A whitespace separator keeps the words of each part. -/
theorem splitWhitespace_joinWith {sep : Text} (hne : sep ≠ [])
    (hsep : ∀ c ∈ sep, isWhitespace c = true) (parts : List Text) :
    splitWhitespace (joinWith sep parts) = parts.flatMap splitWhitespace := by
  induction parts with
  | nil => rfl
  | cons first rest ih =>
    cases rest with
    | nil => simp [joinWith]
    | cons second rest =>
      obtain ⟨c, sep', rfl⟩ := exists_cons_of_ne_nil hne
      have hblank : ∀ d ∈ sep', isWhitespace d = true :=
        fun d hd => hsep d (mem_cons_of_mem c hd)
      rw [joinWith_cons_cons, append_assoc, cons_append,
        splitWhitespace_append (hsep c mem_cons_self), splitWhitespace_blank hblank, ih]
      rfl

/-! ## §2 Classes -/

lemma flatMap_classes_perm {α : Type*} (f : α → ℕ) (l : List α) (n : ℕ) :
    ((range n).flatMap fun k => l.filter fun a => f a = k).Perm
      (l.filter fun a => f a < n) := by
  induction n with
  | zero => simp
  | succ n ih =>
    have hlow : (l.filter fun a => f a < n + 1).filter (fun a => f a < n) =
        l.filter fun a => f a < n := by
      rw [filter_filter]
      refine filter_congr fun a _ => ?_
      simp only [← Bool.decide_and, decide_eq_decide]
      omega
    have hlast : (l.filter fun a => f a < n + 1).filter (fun a => !decide (f a < n)) =
        l.filter fun a => f a = n := by
      rw [filter_filter]
      refine filter_congr fun a _ => ?_
      rw [← decide_not, ← Bool.decide_and, decide_eq_decide]
      omega
    have hsplit := filter_append_perm (fun a => decide (f a < n)) (l.filter fun a => f a < n + 1)
    rw [hlow, hlast] at hsplit
    rw [range_succ, flatMap_append, flatMap_singleton]
    exact (ih.append_right _).trans hsplit

lemma perm_flatMap_classes {α : Type*} {f : α → ℕ} {l : List α} {n : ℕ} (h : ∀ a ∈ l, f a < n) :
    ((range n).flatMap fun k => l.filter fun a => f a = k).Perm l := by
  have hperm := flatMap_classes_perm f l n
  rwa [filter_eq_self.mpr fun a ha => decide_eq_true (h a ha)] at hperm

/-- Of several parts none of which is empty, each is smaller than the whole. -/
theorem length_lt_of_mem_parts {α : Type*} {parts : List (List α)} (hparts : 2 ≤ parts.length)
    (hne : ∀ part ∈ parts, part ≠ []) {child : List α} (hchild : child ∈ parts) :
    child.length < parts.flatten.length := by
  obtain ⟨before, after, rfl⟩ := append_of_mem hchild
  have hothers : before ++ after ≠ [] := by
    intro hnil
    rw [append_eq_nil_iff] at hnil
    rw [hnil.1, hnil.2] at hparts
    simp at hparts
  obtain ⟨other, hother⟩ := exists_mem_of_ne_nil _ hothers
  have hmem : other ∈ before ++ child :: after := by
    rcases mem_append.mp hother with hb | ha
    · exact mem_append_left _ hb
    · exact mem_append_right _ (mem_cons_of_mem _ ha)
  have hpos : 0 < (before ++ after).flatten.length := by
    refine length_pos_iff.mpr fun hnil => ?_
    exact hne other hmem (flatten_eq_nil_iff.mp hnil other hother)
  simp only [flatten_append, flatten_cons, length_append] at hpos ⊢
  omega

end Kwiry.Foundations
