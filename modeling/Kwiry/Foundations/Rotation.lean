import Mathlib.Data.List.Rotate
import Mathlib.Tactic.Ring

/-!
# Walking Around a Ring

A walk goes once around a ring of weighted items from a cursor and takes what it can: at most a
number of items, within a total weight. An item that does not fit into what is left of the weight
is passed over, and the next walk starts behind the last item examined.

As long as every walk fits its window of items, the walks cover the ring. A walk that passes an
item over because the number is not what ends it comes back to where it started.
-/

namespace Kwiry.Foundations

open List

variable {A : Type*}

/-- The total weight of some items. -/
def weight (items : List (A × ℕ)) : ℕ := (items.map Prod.snd).sum

@[simp] lemma weight_nil : weight ([] : List (A × ℕ)) = 0 := rfl

@[simp] lemma weight_cons (item : A × ℕ) (items : List (A × ℕ)) :
    weight (item :: items) = item.2 + weight items := rfl

lemma weight_perm {items items' : List (A × ℕ)} (h : items.Perm items') :
    weight items = weight items' :=
  (h.map Prod.snd).sum_nat

/-- What a walk took, and how many items it examined. -/
structure Walk (A : Type*) where
  taken : List (A × ℕ)
  examined : ℕ

/-- Takes at most `number` items within a weight, in order. -/
def walk : ℕ → ℕ → List (A × ℕ) → Walk A
  | 0, _, _ => ⟨[], 0⟩
  | _ + 1, _, [] => ⟨[], 0⟩
  | number + 1, room, item :: rest =>
    if room < item.2 then
      let later := walk (number + 1) room rest
      ⟨later.taken, later.examined + 1⟩
    else
      let later := walk number (room - item.2) rest
      ⟨item :: later.taken, later.examined + 1⟩

lemma weight_take_le (number : ℕ) (items : List (A × ℕ)) :
    weight (items.take number) ≤ weight items := by
  have hsum := congrArg sum (congrArg (map Prod.snd) (take_append_drop number items))
  rw [map_append, sum_append] at hsum
  simp only [weight]
  omega

variable {item : A × ℕ}

section Walks

variable {number room : ℕ} {items : List (A × ℕ)}

@[simp] lemma walk_zero : walk 0 room items = ⟨[], 0⟩ := by
  simp [walk]

@[simp] lemma walk_nil : walk number room ([] : List (A × ℕ)) = ⟨[], 0⟩ := by
  cases number <;> rfl

lemma walk_of_lt (h : room < item.2) :
    walk (number + 1) room (item :: items) =
      ⟨(walk (number + 1) room items).taken, (walk (number + 1) room items).examined + 1⟩ := by
  rw [walk, if_pos h]

lemma walk_of_le (h : item.2 ≤ room) :
    walk (number + 1) room (item :: items) =
      ⟨item :: (walk number (room - item.2) items).taken,
        (walk number (room - item.2) items).examined + 1⟩ := by
  rw [walk, if_neg (Nat.not_lt.mpr h)]

lemma walk_of_fits (h : weight (items.take number) ≤ room) :
    walk number room items = ⟨items.take number, min number items.length⟩ := by
  induction items generalizing number room with
  | nil => simp
  | cons item rest ih =>
    cases number with
    | zero => simp
    | succ number =>
      rw [take_succ_cons, weight_cons] at h
      rw [walk_of_le (by omega), ih (by omega), take_succ_cons, length_cons, Nat.succ_min_succ]

lemma taken_sublist : (walk number room items).taken.Sublist items := by
  induction items generalizing number room with
  | nil => simp
  | cons item rest ih =>
    cases number with
    | zero => simp
    | succ number =>
      rcases Nat.lt_or_ge room item.2 with hheavy | hlight
      · rw [walk_of_lt hheavy]
        exact ih.cons item
      · rw [walk_of_le hlight]
        exact ih.cons_cons item

lemma weight_taken_le : weight (walk number room items).taken ≤ room := by
  induction items generalizing number room with
  | nil => simp
  | cons item rest ih =>
    cases number with
    | zero => simp
    | succ number =>
      rcases Nat.lt_or_ge room item.2 with hheavy | hlight
      · rw [walk_of_lt hheavy]
        exact ih
      · rw [walk_of_le hlight, weight_cons]
        have hrest : weight (walk number (room - item.2) rest).taken ≤ room - item.2 := ih
        omega

lemma examined_of_length_le (h : items.length ≤ number) :
    (walk number room items).examined = items.length := by
  induction items generalizing number room with
  | nil => simp
  | cons item rest ih =>
    rw [length_cons] at h
    obtain ⟨number, rfl⟩ : ∃ m, number = m + 1 := ⟨number - 1, by omega⟩
    rcases Nat.lt_or_ge room item.2 with hheavy | hlight
    · rw [walk_of_lt hheavy, length_cons, ih (by omega)]
    · rw [walk_of_le hlight, length_cons, ih (by omega)]

end Walks

/-! ## §1 Successive walks -/

section

variable {number room : ℕ} {items : List (A × ℕ)} {cursor : ℕ → ℕ}

/-- The cursors of successive walks: each starts behind what the one before examined. -/
def Successive (number room : ℕ) (items : List (A × ℕ)) (cursor : ℕ → ℕ) : Prop :=
  ∀ t, items.rotate (cursor (t + 1)) =
    items.rotate (cursor t + (walk number room (items.rotate (cursor t))).examined)

/-- Walks that fit cover the ring: an item ahead of the cursor is taken, or is nearer next time. -/
theorem exists_taken_of_fits (hnumber : 0 < number) (hnext : Successive number room items cursor)
    (hfits : ∀ t, weight ((items.rotate (cursor t)).take number) ≤ room) (hitem : item ∈ items) :
    ∃ t, item ∈ (walk number room (items.rotate (cursor t))).taken := by
  have hahead : ∀ ahead t : ℕ, (items.rotate (cursor t))[ahead]? = some item →
      ∃ t, item ∈ (walk number room (items.rotate (cursor t))).taken := by
    intro ahead
    induction ahead using Nat.strong_induction_on with
    | _ ahead ih =>
      intro t hget
      have hwalk := walk_of_fits (hfits t)
      by_cases hnear : ahead < number
      · refine ⟨t, ?_⟩
        rw [hwalk]
        have htaken : ((items.rotate (cursor t)).take number)[ahead]? = some item := by
          rw [getElem?_take_of_lt hnear, hget]
        exact mem_of_getElem? htaken
      · have hlength : ahead < items.length := by
          have hbound := (List.getElem?_eq_some_iff.mp hget).1
          rwa [length_rotate] at hbound
        have hexamined : (walk number room (items.rotate (cursor t))).examined = number := by
          rw [hwalk, length_rotate]
          exact Nat.min_eq_left (by omega)
        refine ih (ahead - number) (by omega) (t + 1) ?_
        rw [hnext t, hexamined, getElem?_rotate (by omega), ← hget, getElem?_rotate hlength]
        congr 2
        omega
  obtain ⟨position, hget⟩ := mem_iff_getElem?.mp (mem_rotate.mpr hitem)
  exact hahead position 0 hget

lemma rotate_cursor_of_length_le (hnext : Successive number room items cursor)
    (h : items.length ≤ number) (t : ℕ) : items.rotate (cursor t) = items.rotate (cursor 0) := by
  induction t with
  | zero => rfl
  | succ t ih =>
    have hexamined : (walk number room (items.rotate (cursor t))).examined = items.length := by
      rw [examined_of_length_le (by rw [length_rotate]; exact h), length_rotate]
    rw [hnext t, hexamined, ← rotate_rotate, ih]
    conv_lhs => rw [← length_rotate items (cursor 0)]
    exact rotate_length _

end

end Kwiry.Foundations
