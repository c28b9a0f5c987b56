import Mathlib.Algebra.BigOperators.Group.Finset.Piecewise
import Mathlib.Algebra.Ring.Nat
import Std.Data.ExtTreeMap.Lemmas

/-!
# Values of Tree Maps

The values of an ordered map as the second components of its entries, so that what is known of
entries carries over to values.
-/

namespace Kwiry.Foundations

open List Std

universe u v

variable {α : Type u} {β : Type v} {cmp : α → α → Ordering} [TransCmp cmp]

lemma values_eq (m : ExtTreeMap α β cmp) : m.values = m.toList.map Prod.snd := by
  obtain ⟨inner⟩ := m
  refine inner.inductionOn fun m => ?_
  -- both sides are read off the same tree
  change m.inner.values = (DTreeMap.Internal.Impl.Const.toList m.inner).map Prod.snd
  rw [DTreeMap.Internal.Impl.values_eq_map_snd,
    DTreeMap.Internal.Impl.Const.toList_eq_toListModel_map, map_map]
  rfl

variable [LawfulEqCmp cmp] {m : ExtTreeMap α β cmp}

lemma mem_values {value : β} : value ∈ m.values ↔ ∃ key : α, m[key]? = some value := by
  rw [values_eq, mem_map]
  constructor
  · intro h
    obtain ⟨entry, hentry, heq⟩ := h
    exact ⟨entry.1, by rw [← heq, ExtTreeMap.mem_toList_iff_getElem?_eq_some.mp hentry]⟩
  · intro h
    obtain ⟨key, hget⟩ := h
    exact ⟨(key, value), ExtTreeMap.mem_toList_iff_getElem?_eq_some.mpr hget, rfl⟩

lemma map_values_eq_keys {keyOf : β → α}
    (h : ∀ (key : α) (value : β), m[key]? = some value → keyOf value = key) :
    m.values.map keyOf = m.keys := by
  rw [values_eq, ← ExtTreeMap.map_fst_toList_eq_keys, map_map]
  apply map_congr_left
  intro entry hentry
  exact h entry.1 entry.2 (ExtTreeMap.mem_toList_iff_getElem?_eq_some.mp hentry)

/-- The total of the values, key by key over any keys that have them all. -/
theorem sum_values {m : ExtTreeMap α ℕ cmp} {keys : List α} (hnodup : keys.Nodup)
    (hall : ∀ key ∈ m, key ∈ keys) : m.values.sum = (keys.map fun key => (m[key]?).getD 0).sum := by
  classical
  have hvalues : m.values = m.keys.map fun key => (m[key]?).getD 0 := by
    rw [values_eq, ← ExtTreeMap.map_fst_toList_eq_keys, map_map]
    apply map_congr_left
    intro entry hentry
    simp [ExtTreeMap.mem_toList_iff_getElem?_eq_some.mp hentry]
  rw [hvalues, ← sum_toFinset _ ExtTreeMap.nodup_keys, ← sum_toFinset _ hnodup]
  -- a key outside the map adds nothing
  apply Finset.sum_subset
  · intro key hkey
    simp only [mem_toFinset, ExtTreeMap.mem_keys] at hkey ⊢
    exact hall key hkey
  · intro key _ hkey
    simp only [mem_toFinset, ExtTreeMap.mem_keys] at hkey
    simp [ExtTreeMap.getElem?_eq_none hkey]

/-- Counting by distinct keys counts what has one of them. -/
theorem sum_countP_eq {A κ : Type*} [DecidableEq κ] {keys : List κ} (hnodup : keys.Nodup)
    (keyOf : A → κ) {items : List A} :
    (keys.map fun key => items.countP fun item => keyOf item = key).sum =
      items.countP fun item => keyOf item ∈ keys := by
  induction items with
  | nil => simp
  | cons item rest ih =>
    have hone : (keys.map fun key => if keyOf item = key then 1 else 0).sum =
        if keyOf item ∈ keys then 1 else 0 := by
      rw [← sum_toFinset _ hnodup]
      simp
    simp only [countP_cons, decide_eq_true_eq]
    rw [sum_map_add, ih, hone]

section

variable {α : Type u} {β : Type v} {cmp : α → α → Ordering} [TransCmp cmp]
variable [LawfulEqCmp cmp]

/-- Entries in the order of their keys. -/
def KeySorted (cmp : α → α → Ordering) (entries : List (α × β)) : Prop :=
  entries.Pairwise fun a b => cmp a.1 b.1 = .lt

/-- Sorted entries are determined by their members. -/
theorem KeySorted.ext {entries entries' : List (α × β)} (h : KeySorted cmp entries)
    (h' : KeySorted cmp entries') (hmem : ∀ entry, entry ∈ entries ↔ entry ∈ entries') :
    entries = entries' := by
  have hirrefl : ∀ entry : α × β, cmp entry.1 entry.1 ≠ .lt := by
    intro entry
    have hself : cmp entry.1 entry.1 = .eq := ReflCmp.compare_self
    rw [hself]
    exact Ordering.noConfusion
  have hperm : entries.Perm entries' := by
    apply (perm_ext_iff_of_nodup (h.imp _) (h'.imp _)).mpr hmem
    · intro a b hlt heq
      rw [heq] at hlt
      exact hirrefl b hlt
    · intro a b hlt heq
      rw [heq] at hlt
      exact hirrefl b hlt
  apply hperm.eq_of_pairwise _ h h'
  intro a b _ _ hab hba
  have hself := TransCmp.lt_trans hab hba
  exact absurd hself (hirrefl a)

omit [LawfulEqCmp cmp] in
lemma keySorted_toList (m : ExtTreeMap α β cmp) : KeySorted cmp m.toList :=
  ExtTreeMap.ordered_keys_toList

/-- Entries inserted in the order of their keys are the entries of the map. -/
theorem toList_foldl_insert {entries : List (α × β)} (h : KeySorted cmp entries) :
    (entries.foldl (fun m entry => m.insert entry.1 entry.2) (∅ : ExtTreeMap α β cmp)).toList =
      entries := by
  apply (keySorted_toList _).ext h
  induction entries using reverseRecOn with
  | nil => simp
  | append_singleton entries last ih =>
    obtain ⟨hentries, -, hlast⟩ := pairwise_append.mp h
    intro entry
    have hold := ih hentries entry
    rw [ExtTreeMap.mem_toList_iff_getElem?_eq_some] at hold ⊢
    rw [foldl_append, foldl_cons, foldl_nil, ExtTreeMap.getElem?_insert,
      mem_append, mem_singleton]
    split
    next heq =>
      -- the last key is a new one
      have hkey : last.1 = entry.1 := LawfulEqCmp.eq_of_compare heq
      have hnew : entry ∉ entries := by
        intro hmem
        have hlt := hlast entry hmem last (mem_singleton.mpr rfl)
        have hself : cmp entry.1 entry.1 = .eq := ReflCmp.compare_self
        rw [hkey, hself] at hlt
        cases hlt
      rw [Option.some.injEq]
      constructor
      · intro hvalue
        exact .inr (Prod.ext hkey.symm hvalue.symm)
      · intro hor
        rw [hor.resolve_left hnew]
    next hne =>
      rw [hold]
      constructor
      · exact .inl
      · intro hor
        rcases hor with hmem | rfl
        · exact hmem
        · exact absurd ReflCmp.compare_self hne

end

end Kwiry.Foundations
