import Mathlib.Data.List.Basic

/-!
# Pieces of a Sequence of Items

Items that follow each other are gathered into pieces, each of which ends with the first item that
makes it as long as a budget. An item that is too large is a piece of its own, and the last piece
takes what is left. An item is given by where it stops; the first item of the first piece may begin
after the piece does.
-/

namespace Kwiry.Foundations

open List

/-- How a piece ends. -/
inductive Piece where
  /-- After an item, at an offset. -/
  | cut (stop : ℕ)
  /-- After the only item of the piece, which is too large. -/
  | alone (stop : ℕ)
  | last

/-- The pieces from inside a piece on: it began at `start`, its first item at `first`, and its next
item begins at `before`. -/
def pieces (bound budget : ℕ) : ℕ → ℕ → ℕ → List (ℕ × Bool) → List (ℕ × Piece)
  | start, _, _, [] => [(start, .last)]
  | start, first, before, (stop, large) :: items =>
    if large then
      if first < before then
        (start, .cut before) :: (before, .alone stop) :: pieces bound budget stop stop stop items
      else (start, .alone stop) :: pieces bound budget stop stop stop items
    else if bound ≤ stop then [(start, .last)]
    else if budget ≤ stop - start then
      (start, .cut stop) :: pieces bound budget stop stop stop items
    else pieces bound budget start first stop items

/-- The items stop one after the other, and not beyond the bound. -/
def Rising (bound : ℕ) : ℕ → List (ℕ × Bool) → Prop
  | _, [] => True
  | before, (stop, _) :: items => before < stop ∧ stop ≤ bound ∧ Rising bound stop items

/-- Pieces that begin at an offset, follow each other, and end with one that is the last. -/
inductive Tiled : ℕ → List (ℕ × Piece) → Prop where
  | last (start : ℕ) : Tiled start [(start, .last)]
  | cut {start stop : ℕ} {rest : List (ℕ × Piece)} (hlt : start < stop) (h : Tiled stop rest) :
      Tiled start ((start, .cut stop) :: rest)
  | alone {start stop : ℕ} {rest : List (ℕ × Piece)} (hlt : start < stop) (h : Tiled stop rest) :
      Tiled start ((start, .alone stop) :: rest)

/-- Where a piece with one item too large begins and ends. -/
def aloneSpan : ℕ × Piece → Option (ℕ × ℕ)
  | (start, .alone stop) => some (start, stop)
  | _ => none

/-- The items that are too large, each from where the one before it stopped. -/
def spansFrom : ℕ → List (ℕ × Bool) → List (ℕ × ℕ)
  | _, [] => []
  | origin, (stop, large) :: items =>
    if large then (origin, stop) :: spansFrom stop items else spansFrom stop items

/-- Where a piece of the next item alone would begin. -/
def origin (start first before : ℕ) : ℕ := if first < before then before else start

section Pieces

variable {bound budget start first before stop : ℕ} {large : Bool} {items : List (ℕ × Bool)}

lemma origin_self (start : ℕ) : origin start start start = start := by
  simp [origin]

lemma Rising.tail (h : Rising bound before ((stop, large) :: items)) : Rising bound stop items :=
  h.2.2

section

variable (h : Rising bound before items)

include h

lemma Rising.eq_nil (hbound : bound ≤ before) : items = [] := by
  cases items with
  | nil => rfl
  | cons item items =>
    have hlt : before < item.1 := h.1
    have hle : item.1 ≤ bound := h.2.1
    omega

lemma Rising.lt_of_mem {item : ℕ × Bool} (hmem : item ∈ items) : before < item.1 := by
  induction items generalizing before with
  | nil => cases hmem
  | cons head items ih =>
    rcases mem_cons.mp hmem with rfl | hmem
    · exact h.1
    · exact Nat.lt_trans h.1 (ih h.2.2 hmem)

lemma pieces_tiled (hstart : start ≤ first) (hfirst : first ≤ before) :
    Tiled start (pieces bound budget start first before items) := by
  induction items generalizing start first before with
  | nil => exact .last start
  | cons item items ih =>
    obtain ⟨stop, large⟩ := item
    have hlt : before < stop := h.1
    have hnext : Tiled stop (pieces bound budget stop stop stop items) :=
      ih h.tail (Nat.le_refl stop) (Nat.le_refl stop)
    rw [pieces]
    split
    · split
      · exact .cut (by omega) (.alone hlt hnext)
      · exact .alone (by omega) hnext
    · split
      · exact .last start
      · split
        · exact .cut (by omega) hnext
        · exact ih h.tail hstart (by omega)

/-- The pieces of one item too large do not depend on the budget. -/
theorem alone_pieces (hfirst : first ≤ before) :
    (pieces bound budget start first before items).filterMap aloneSpan =
      spansFrom (origin start first before) items := by
  induction items generalizing start first before with
  | nil => simp [pieces, aloneSpan, spansFrom]
  | cons item items ih =>
    obtain ⟨stop, large⟩ := item
    have hlt : before < stop := h.1
    have hnext : (pieces bound budget stop stop stop items).filterMap aloneSpan =
        spansFrom (origin stop stop stop) items := ih h.tail (Nat.le_refl stop)
    rw [origin_self] at hnext
    rw [pieces, spansFrom]
    cases large with
    | true =>
      simp only [if_true]
      by_cases hbefore : first < before
      · simp [hbefore, filterMap_cons, aloneSpan, origin, hnext]
      · simp [hbefore, aloneSpan, origin, hnext]
    | false =>
      simp only [Bool.false_eq_true, if_false]
      split
      · next hbound =>
        -- the last item stops at the bound
        rw [h.tail.eq_nil hbound]
        simp [aloneSpan, spansFrom]
      · split
        · simpa [filterMap_cons, aloneSpan] using hnext
        · have horigin : origin start first stop = stop := by
            simp only [origin]
            exact if_pos (by omega)
          rw [ih h.tail (by omega), horigin]

end

/-- Pieces end where items stop. -/
theorem mem_stops_of_cut {p : ℕ × Piece} (hmem : p ∈ pieces bound budget start first before items)
    (hstop : p.2 = .cut stop ∨ p.2 = .alone stop) :
    (first < before ∧ stop = before) ∨ ∃ large, (stop, large) ∈ items := by
  induction items generalizing start first before with
  | nil =>
    rw [pieces, mem_singleton] at hmem
    subst hmem
    simp at hstop
  | cons item items ih =>
    obtain ⟨next, large⟩ := item
    have hrest : p ∈ pieces bound budget next next next items →
        ∃ large', (stop, large') ∈ (next, large) :: items := by
      intro hp
      rcases ih hp with ⟨hlt, _⟩ | ⟨large', hitem⟩
      · exact absurd hlt (Nat.lt_irrefl _)
      · exact ⟨large', mem_cons_of_mem _ hitem⟩
    have hhead : stop = next → ∃ large', (stop, large') ∈ (next, large) :: items := by
      intro hnext
      exact ⟨large, by rw [hnext]; exact mem_cons_self⟩
    rw [pieces] at hmem
    split at hmem
    · split at hmem
      · next hlt =>
        rcases mem_cons.mp hmem with rfl | hmem
        · left
          simpa [hlt, eq_comm] using hstop
        · right
          rcases mem_cons.mp hmem with rfl | hmem
          · exact hhead (by simpa [eq_comm] using hstop)
          · exact hrest hmem
      · right
        rcases mem_cons.mp hmem with rfl | hmem
        · exact hhead (by simpa [eq_comm] using hstop)
        · exact hrest hmem
    · split at hmem
      · rw [mem_singleton] at hmem
        subst hmem
        simp at hstop
      · right
        split at hmem
        · rcases mem_cons.mp hmem with rfl | hmem
          · exact hhead (by simpa [eq_comm] using hstop)
          · exact hrest hmem
        · rcases ih hmem with ⟨_, hnext⟩ | ⟨large', hitem⟩
          · exact hhead hnext
          · exact ⟨large', mem_cons_of_mem _ hitem⟩

/-- Whether a piece has what stops at an offset, when it has what begins it. -/
def Piece.Reaches (stop : ℕ) : Piece → Prop
  | .cut other => stop ≤ other
  | .alone _ => False
  | .last => True

/-- The first piece has all of it that is already read. -/
theorem pieces_head (h : Rising bound before items) (hlt : first < before) :
    ∃ piece rest, pieces bound budget start first before items = (start, piece) :: rest ∧
      piece.Reaches before := by
  induction items generalizing before with
  | nil => exact ⟨.last, [], rfl, trivial⟩
  | cons item items ih =>
    obtain ⟨stop, large⟩ := item
    have hstop : before < stop := h.1
    rw [pieces]
    split
    · exact ⟨.cut before, _, rfl, Nat.le_refl before⟩
    · split
      · exact ⟨.last, [], rfl, trivial⟩
      · split
        · exact ⟨.cut stop, _, rfl, Nat.le_of_lt hstop⟩
        · obtain ⟨piece, rest, hpieces, hreaches⟩ := ih h.tail (by omega)
          refine ⟨piece, rest, hpieces, ?_⟩
          cases piece with
          | cut other => exact Nat.le_trans (Nat.le_of_lt hstop) hreaches
          | alone other => exact hreaches
          | last => trivial

/-- The items with where they begin. -/
def itemsFrom : ℕ → List (ℕ × Bool) → List (ℕ × ℕ × Bool)
  | _, [] => []
  | before, (stop, large) :: items => (before, stop, large) :: itemsFrom stop items

/-- An item that is not too large is inside a piece with others like it. -/
theorem covered_of_mem (budget : ℕ) (h : Rising bound before items) (hstart : start ≤ before)
    (hfirst : first ≤ before) {begins : ℕ} (hmem : (begins, stop, false) ∈ itemsFrom before items) :
    ∃ p ∈ pieces bound budget start first before items, p.1 ≤ begins ∧ p.2.Reaches stop := by
  induction items generalizing start first before with
  | nil => cases hmem
  | cons item items ih =>
    obtain ⟨next, large⟩ := item
    have hlt : before < next := h.1
    rw [pieces]
    rcases mem_cons.mp hmem with heq | hmem
    · cases heq
      simp only [Bool.false_eq_true, if_false]
      split
      · exact ⟨(start, .last), mem_singleton_self _, hstart, trivial⟩
      · split
        · exact ⟨(start, .cut stop), mem_cons_self, hstart, Nat.le_refl stop⟩
        · have hhead : ∃ piece rest,
              pieces bound budget start first stop items = (start, piece) :: rest ∧
                piece.Reaches stop := pieces_head h.tail (by omega)
          obtain ⟨piece, rest, hpieces, hreaches⟩ := hhead
          rw [hpieces]
          exact ⟨(start, piece), mem_cons_self, hstart, hreaches⟩
    · have hcovered : ∃ p ∈ pieces bound budget next next next items,
          p.1 ≤ begins ∧ p.2.Reaches stop :=
        ih h.tail (Nat.le_refl next) (Nat.le_refl next) hmem
      obtain ⟨p, hp, hcovers⟩ := hcovered
      split
      · split
        · exact ⟨p, mem_cons_of_mem _ (mem_cons_of_mem _ hp), hcovers⟩
        · exact ⟨p, mem_cons_of_mem _ hp, hcovers⟩
      · split
        · next hbound =>
          rw [h.tail.eq_nil hbound] at hmem
          cases hmem
        · split
          · exact ⟨p, mem_cons_of_mem _ hp, hcovers⟩
          · exact ih h.tail (by omega) (by omega) hmem

lemma mem_spansFrom (h : Rising bound before items) :
    (∃ start, (start, stop) ∈ spansFrom first items) ↔ (stop, true) ∈ items := by
  induction items generalizing first before with
  | nil => simp [spansFrom]
  | cons item items ih =>
    obtain ⟨next, large⟩ := item
    have hnext : (∃ start, (start, stop) ∈ spansFrom next items) ↔ (stop, true) ∈ items :=
      ih h.tail
    rw [spansFrom]
    cases large with
    | true => simp [exists_or, hnext]
    | false => simp [hnext]

lemma mem_of_mem_itemsFrom {begins : ℕ}
    (hmem : (begins, stop, large) ∈ itemsFrom before items) : (stop, large) ∈ items := by
  induction items generalizing before with
  | nil => cases hmem
  | cons item items ih =>
    obtain ⟨next, other⟩ := item
    rcases mem_cons.mp hmem with heq | hmem
    · cases heq
      exact mem_cons_self
    · exact mem_cons_of_mem _ (ih hmem)

lemma Rising.large_unique (h : Rising bound before items) {other : Bool}
    (hmem : (stop, large) ∈ items) (hother : (stop, other) ∈ items) : large = other := by
  induction items generalizing before with
  | nil => cases hmem
  | cons item items ih =>
    have hbeyond : ∀ flag, (item.1, flag) ∉ items := by
      intro flag hitem
      have hlt : item.1 < (item.1, flag).1 := h.tail.lt_of_mem hitem
      exact Nat.lt_irrefl _ hlt
    rcases mem_cons.mp hmem with rfl | hin
    · rcases mem_cons.mp hother with heq | hother
      · exact (Prod.mk.inj heq).2.symm
      · exact absurd hother (hbeyond other)
    · rcases mem_cons.mp hother with rfl | hother
      · exact absurd hin (hbeyond large)
      · exact ih h.tail hin hother

end Pieces

end Kwiry.Foundations
