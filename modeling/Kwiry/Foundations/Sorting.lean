import Mathlib.Data.List.Sort

/-!
# Sorting by a Comparator

A stable sort by a comparator that returns an `Ordering`. With a transitive comparator the
result is sorted; with one that tells the items apart, the result does not depend on the order
they came in. Comparators are chained with `Ordering.then`.
-/

namespace Kwiry.Foundations

open List

variable {α β : Type*} {cmp : α → α → Ordering}

/-- The list sorted by a comparator, equal items in the order they came. -/
def sortBy (cmp : α → α → Ordering) (items : List α) : List α :=
  items.insertionSort fun a b => (cmp a b).isLE = true

lemma sortBy_perm (cmp : α → α → Ordering) (items : List α) : (sortBy cmp items).Perm items :=
  perm_insertionSort _ items

variable {items : List α} {a b : α}

@[simp] lemma mem_sortBy : a ∈ sortBy cmp items ↔ a ∈ items :=
  mem_insertionSort _

lemma pairwise_sortBy (cmp : α → α → Ordering) [Std.TransCmp cmp] (items : List α) :
    (sortBy cmp items).Pairwise fun a b => (cmp a b).isLE = true := by
  have htrans : IsTrans α fun a b => (cmp a b).isLE = true :=
    ⟨fun a b c => Std.TransCmp.isLE_trans⟩
  have htotal : Std.Total fun a b => (cmp a b).isLE = true := by
    refine ⟨fun a b => ?_⟩
    rcases h : (cmp a b).isLE with _ | _
    · have hgt : cmp a b = .gt := by
        cases hcmp : cmp a b <;> simp [hcmp] at h ⊢
      exact .inr (by rw [Std.OrientedCmp.lt_of_gt hgt]; rfl)
    · exact .inl rfl
  exact pairwise_insertionSort _ items

/-- A comparator that tells the items apart sorts every arrangement of them alike. -/
theorem sortBy_eq_of_perm [Std.TransCmp cmp] {items' : List α} (hperm : items.Perm items')
    (hinj : ∀ a ∈ items, ∀ b ∈ items, cmp a b = .eq → a = b) :
    sortBy cmp items = sortBy cmp items' := by
  have hsorted : (sortBy cmp items).Perm (sortBy cmp items') :=
    (sortBy_perm cmp items).trans (hperm.trans (sortBy_perm cmp items').symm)
  refine hsorted.eq_of_pairwise ?_ (pairwise_sortBy cmp items) (pairwise_sortBy cmp items')
  intro a b ha hb hab hba
  have ha' : a ∈ items := mem_sortBy.mp ha
  have hb' : b ∈ items := hperm.mem_iff.mpr (mem_sortBy.mp hb)
  exact hinj a ha' b hb' (Std.OrientedCmp.isLE_antisymm hab hba)

lemma transCmp_comap (cmp : α → α → Ordering) [Std.TransCmp cmp] (f : β → α) :
    Std.TransCmp fun a b => cmp (f a) (f b) where
  eq_swap := Std.OrientedCmp.eq_swap
  isLE_trans := Std.TransCmp.isLE_trans

lemma sortBy_map {cmp' : β → β → Ordering} (f : α → β)
    (h : ∀ a ∈ items, ∀ b ∈ items, cmp a b = cmp' (f a) (f b)) :
    (sortBy cmp items).map f = sortBy cmp' (items.map f) := by
  refine map_insertionSort _ _ f items ?_
  intro a ha b hb
  rw [h a ha b hb]

lemma sortBy_head_isLE [Std.TransCmp cmp] {rest : List α} (h : sortBy cmp items = a :: rest) :
    a ∈ items ∧ ∀ b ∈ items, (cmp a b).isLE = true := by
  have hmem : ∀ b, b ∈ items ↔ b ∈ a :: rest := by
    intro b
    rw [← h, mem_sortBy]
  have hpair := pairwise_sortBy cmp items
  rw [h] at hpair
  refine ⟨(hmem a).mpr mem_cons_self, fun b hb => ?_⟩
  rcases mem_cons.mp ((hmem b).mp hb) with rfl | hrest
  · exact Std.ReflCmp.isLE_rfl
  · exact (pairwise_cons.mp hpair).1 b hrest

/-- One item stands before another. -/
def Precedes (items : List α) (a b : α) : Prop :=
  [a, b].Sublist items

lemma precedes_or (ha : a ∈ items) (hb : b ∈ items) (hne : a ≠ b) :
    Precedes items a b ∨ Precedes items b a := by
  obtain ⟨before, after, rfl⟩ := append_of_mem ha
  rcases mem_append.mp hb with hb | hb
  · have hpair : [b, a].Sublist (before ++ a :: after) :=
      (singleton_sublist.mpr hb).append (singleton_sublist.mpr mem_cons_self)
    exact .inr hpair
  · rcases mem_cons.mp hb with heq | hb
    · exact absurd heq.symm hne
    · have hpair : [a, b].Sublist (before ++ a :: after) :=
        ((singleton_sublist.mpr hb).cons_cons a).trans (sublist_append_right _ _)
      exact .inl hpair

lemma isLE_of_precedes [Std.TransCmp cmp] (h : Precedes (sortBy cmp items) a b) :
    (cmp a b).isLE = true := by
  have hpair := (pairwise_sortBy cmp items).sublist h
  exact (pairwise_cons.mp hpair).1 b mem_cons_self

lemma precedes_of_lt [Std.TransCmp cmp] (ha : a ∈ items) (hb : b ∈ items) (hlt : cmp a b = .lt) :
    Precedes (sortBy cmp items) a b := by
  have hne : a ≠ b := by
    rintro rfl
    have hself : cmp a a = .eq := Std.ReflCmp.compare_self
    rw [hself] at hlt
    cases hlt
  rcases precedes_or (mem_sortBy.mpr ha) (mem_sortBy.mpr hb) hne with h | h
  · exact h
  · have hle := isLE_of_precedes h
    rw [Std.OrientedCmp.gt_of_lt hlt] at hle
    cases hle

/-- Of three items in strict order the sorted list has one between the others. -/
theorem sortBy_split [Std.TransCmp cmp] {c : α} (ha : a ∈ items) (hb : b ∈ items) (hc : c ∈ items)
    (hab : cmp a b = .lt) (hbc : cmp b c = .lt) :
    ∃ l₁ l₂ l₃ l₄, sortBy cmp items = (l₁ ++ a :: l₂) ++ b :: (l₃ ++ c :: l₄) := by
  obtain ⟨before, after, hsplit⟩ := append_of_mem (mem_sortBy.mpr hb)
  have hpair := pairwise_sortBy cmp items
  rw [hsplit, pairwise_append, pairwise_cons] at hpair
  obtain ⟨-, ⟨hafter, -⟩, hbefore⟩ := hpair
  have hself : cmp b b = .eq := Std.ReflCmp.compare_self
  have hmem : ∀ x ∈ items, x ∈ before ∨ x = b ∨ x ∈ after := by
    intro x hx
    have hx : x ∈ sortBy cmp items := mem_sortBy.mpr hx
    rwa [hsplit, mem_append, mem_cons] at hx
  have hleft : a ∈ before := by
    rcases hmem a ha with hin | rfl | hin
    · exact hin
    · rw [hself] at hab
      cases hab
    · have hle := hafter a hin
      rw [Std.OrientedCmp.gt_of_lt hab] at hle
      cases hle
  have hright : c ∈ after := by
    rcases hmem c hc with hin | rfl | hin
    · have hle := hbefore c hin b mem_cons_self
      rw [Std.OrientedCmp.gt_of_lt hbc] at hle
      cases hle
    · rw [hself] at hbc
      cases hbc
    · exact hin
  obtain ⟨l₁, l₂, rfl⟩ := append_of_mem hleft
  obtain ⟨l₃, l₄, rfl⟩ := append_of_mem hright
  exact ⟨l₁, l₂, l₃, l₄, hsplit⟩

/-- The last of the maximal items. -/
def maxBy (cmp : α → α → Ordering) (items : List α) : Option α :=
  items.foldl
    (fun best item =>
      match best with
      | none => some item
      | some best => if cmp best item = .gt then some best else some item)
    none

lemma mem_of_maxBy (h : maxBy cmp items = some a) : a ∈ items := by
  have hfold : ∀ (items : List α) (best : Option α) (a : α), items.foldl (fun best item =>
          match best with
          | none => some item
          | some best => if cmp best item = .gt then some best else some item) best = some a →
      a ∈ items ∨ best = some a := by
    intro items
    induction items with
    | nil => exact fun best a h => .inr h
    | cons item rest ih =>
      intro best a h
      rcases ih _ a h with hrest | hbest
      · exact .inl (mem_cons_of_mem _ hrest)
      · cases best with
        | none =>
          cases hbest
          exact .inl mem_cons_self
        | some best =>
          simp only at hbest
          split at hbest
          · exact .inr hbest
          · cases hbest
            exact .inl mem_cons_self
  rcases hfold items none a h with h | h
  · exact h
  · cases h

/-- Whether two neighbours are related. -/
def anyAdjacent (p : α → α → Bool) : List α → Bool
  | a :: b :: rest => p a b || anyAdjacent p (b :: rest)
  | _ => false

/-- Without neighbours that break a transitive relation, none of the items do. -/
theorem pairwise_of_anyAdjacent {R : α → α → Prop} {p : α → α → Bool}
    (htrans : ∀ a b c, R a b → R b c → R a c) (hp : ∀ a b, p a b = false → R a b)
    (h : anyAdjacent p items = false) : items.Pairwise R := by
  induction items with
  | nil => exact .nil
  | cons a rest ih =>
    cases rest with
    | nil => exact pairwise_singleton _ _
    | cons b rest =>
      simp only [anyAdjacent, Bool.or_eq_false_iff] at h
      have hrest := ih h.2
      refine pairwise_cons.mpr ⟨fun c hc => ?_, hrest⟩
      rcases mem_cons.mp hc with rfl | hc
      · exact hp a c h.1
      · exact htrans a b c (hp a b h.1) ((pairwise_cons.mp hrest).1 c hc)

/-- A clause under a condition that the clauses before it decide is as good as unconditional. -/
theorem then_ite_eq {first last clause : Ordering} {p : Prop} [Decidable p] (h : first = .eq → p) :
    first.then ((if p then clause else .eq).then last) = first.then (clause.then last) := by
  cases first with
  | lt => rfl
  | gt => rfl
  | eq => rw [if_pos (h rfl)]

end Kwiry.Foundations
