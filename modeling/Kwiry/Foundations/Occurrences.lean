import Kwiry.Foundations.Sorting

/-!
# Occurrences of Terms

Where the terms of a list occur in a text, and the runs that occurrences make when they overlap or
touch.
-/

namespace Kwiry.Foundations

open List

variable {α : Type*}

/-! ## §1 Occurrences -/

def Occurs (term text : List α) (place : ℕ) : Prop :=
  term <+: text.drop place

instance [DecidableEq α] (term text : List α) (place : ℕ) : Decidable (Occurs term text place) :=
  inferInstanceAs (Decidable (_ <+: _))

def indexOf [DecidableEq α] (term text : List α) (from_ : ℕ) : Option ℕ :=
  (range' from_ (text.length + 1 - from_)).find? fun place => Occurs term text place

lemma occurs_of_indexOf [DecidableEq α] {term text : List α} {from_ place : ℕ}
    (h : indexOf term text from_ = some place) : from_ ≤ place ∧ Occurs term text place := by
  have hmem := mem_of_find?_eq_some h
  have hoccurs := find?_some h
  exact ⟨(mem_range'_1.mp hmem).1, of_decide_eq_true hoccurs⟩

lemma Occurs.le_length {term text : List α} {place : ℕ} (h : Occurs term text place)
    (hne : term ≠ []) : place + term.length ≤ text.length := by
  have hlength := h.length_le
  have hpositive := length_pos_iff.mpr hne
  rw [length_drop] at hlength
  omega

/-! ## §2 Runs -/

/-- Occurrences that overlap or touch, from where the first begins to where the last ends. -/
inductive Run (terms : List (List α)) (text : List α) (start : ℕ) : ℕ → Prop
  | first {term : List α} (hterm : term ∈ terms) (h : Occurs term text start) :
      Run terms text start (start + term.length)
  | next {stop place : ℕ} {term : List α} (h : Run terms text start stop) (hterm : term ∈ terms)
      (hstart : start ≤ place) (hstop : place ≤ stop) (hoccurs : Occurs term text place) :
      Run terms text start (max stop (place + term.length))

/-- A text that is a union of occurrences, beginning and ending with one. -/
def IsUnion (terms : List (List α)) (text : List α) : Prop :=
  Run terms text 0 text.length

section Runs

variable {terms : List (List α)} {text : List α} {start stop : ℕ}

section

variable (h : Run terms text start stop)

include h

lemma Run.begins : ∃ term ∈ terms, Occurs term text start := by
  induction h with
  | first hterm h => exact ⟨_, hterm, h⟩
  | next _ _ _ _ _ ih => exact ih

lemma Run.le : start ≤ stop := by
  induction h with
  | first _ _ => exact Nat.le_add_right _ _
  | next _ _ _ _ _ ih => exact ih.trans (Nat.le_max_left _ _)

lemma Run.lt (hne : ∀ term ∈ terms, term ≠ []) : start < stop := by
  induction h with
  | first hterm _ =>
    have hpositive := length_pos_iff.mpr (hne _ hterm)
    omega
  | next _ _ _ _ _ ih => exact ih.trans_le (Nat.le_max_left _ _)

lemma Run.le_length (hne : ∀ term ∈ terms, term ≠ []) : stop ≤ text.length := by
  induction h with
  | first hterm h => exact h.le_length (hne _ hterm)
  | next _ hterm _ _ hoccurs ih => exact max_le ih (hoccurs.le_length (hne _ hterm))

end

/-- An occurrence inside a piece of the text is one in the piece. -/
theorem Occurs.slice {term : List α} {place : ℕ} (h : Occurs term text place)
    (hstart : start ≤ place) (hstop : place + term.length ≤ stop) :
    Occurs term ((text.take stop).drop start) (place - start) := by
  have hdrop : ((text.take stop).drop start).drop (place - start) =
      (text.drop place).take (stop - place) := by
    rw [drop_drop, show start + (place - start) = place by omega, drop_take]
  rw [Occurs, hdrop, prefix_take_iff]
  exact ⟨h, by omega⟩

lemma Run.slice (h : Run terms text start stop) {bound : ℕ} (hbound : stop ≤ bound) :
    Run terms ((text.take bound).drop start) 0 (stop - start) := by
  induction h with
  | @first term hterm h =>
    have hoccurs := h.slice (Nat.le_refl start) hbound
    rw [Nat.sub_self] at hoccurs
    have hrun := Run.first hterm hoccurs
    rwa [show 0 + term.length = start + term.length - start by omega] at hrun
  | @next stop place term h hterm hstart hstop hoccurs ih =>
    have hrun := (ih (by omega)).next hterm (Nat.zero_le _) (Nat.sub_le_sub_right hstop start)
      (hoccurs.slice hstart (by omega))
    rwa [show max (stop - start) (place - start + term.length) =
      max stop (place + term.length) - start by omega] at hrun

lemma isUnion_slice (h : Run terms text start stop) (hne : ∀ term ∈ terms, term ≠ []) :
    IsUnion terms ((text.take stop).drop start) := by
  have hlength : ((text.take stop).drop start).length = stop - start := by
    rw [length_drop, length_take, Nat.min_eq_left (h.le_length hne)]
  rw [IsUnion, hlength]
  exact h.slice (Nat.le_refl stop)

end Runs

/-! ## §3 Merging -/

structure Span where
  (start stop : ℕ)

/-- The last span grows as long as the next one overlaps or touches it. -/
def mergeFrom (last : Span) : List Span → List Span
  | [] => [last]
  | next :: rest =>
    if next.start ≤ last.stop then mergeFrom ⟨last.start, max last.stop next.stop⟩ rest
    else last :: mergeFrom next rest

def mergeSpans : List Span → List Span
  | [] => []
  | first :: rest => mergeFrom first rest

section Merging

variable {terms : List (List α)} {text : List α}

/-- A span of one occurrence. -/
def IsOccurrence (terms : List (List α)) (text : List α) (span : Span) : Prop :=
  ∃ term ∈ terms, Occurs term text span.start ∧ span.stop = span.start + term.length

lemma mergeFrom_run {last : Span} {spans : List Span} (hlast : Run terms text last.start last.stop)
    (hspans : ∀ span ∈ spans, IsOccurrence terms text span)
    (hsorted : (last :: spans).Pairwise fun a b => a.start ≤ b.start) :
    ∀ span ∈ mergeFrom last spans, Run terms text span.start span.stop := by
  induction spans generalizing last with
  | nil =>
    intro span hspan
    cases mem_singleton.mp hspan
    exact hlast
  | cons next rest ih =>
    obtain ⟨hfirst, hrest⟩ := pairwise_cons.mp hsorted
    obtain ⟨term, hterm, hoccurs, hstop⟩ := hspans next mem_cons_self
    have hspans := fun span hspan => hspans span (mem_cons_of_mem next hspan)
    rw [mergeFrom]
    split
    · next htouch =>
      have hrun := hlast.next hterm (hfirst next mem_cons_self) htouch hoccurs
      rw [← hstop] at hrun
      refine ih hrun hspans (pairwise_cons.mpr ⟨fun span hspan => ?_, hrest.of_cons⟩)
      exact hfirst span (mem_cons_of_mem next hspan)
    · intro span hspan
      rcases mem_cons.mp hspan with rfl | hspan
      · exact hlast
      · refine ih ?_ hspans hrest span hspan
        rw [hstop]
        exact Run.first hterm hoccurs

/-- Merged occurrences are runs. -/
theorem mergeSpans_run {spans : List Span} (hspans : ∀ span ∈ spans, IsOccurrence terms text span)
    (hsorted : spans.Pairwise fun a b => a.start ≤ b.start) :
    ∀ span ∈ mergeSpans spans, Run terms text span.start span.stop := by
  cases spans with
  | nil =>
    intro span hspan
    cases hspan
  | cons first rest =>
    obtain ⟨term, hterm, hoccurs, hstop⟩ := hspans first mem_cons_self
    refine mergeFrom_run ?_ (fun span hspan => hspans span (mem_cons_of_mem first hspan)) hsorted
    rw [hstop]
    exact Run.first hterm hoccurs

end Merging

end Kwiry.Foundations
