import Kwiry.Foundations.Sorting

/-!
# The First Items of an Order

A collector that keeps at most `limit` items, always the least of those it has seen. When the
comparator tells the items apart, neither the order in which the items arrive nor the way they are
dealt out over several collectors changes what is kept.
-/

namespace Kwiry.Foundations

open List

variable {α β : Type*} {cmp : α → α → Ordering} {limit : ℕ}

/-- The least items, in order. -/
def topBy (cmp : α → α → Ordering) (limit : ℕ) (items : List α) : List α :=
  (sortBy cmp items).take limit

/-- Adds an item to a sorted list of bounded length. -/
def insertBounded (cmp : α → α → Ordering) (limit : ℕ) (items : List α) (item : α) : List α :=
  if limit = 0 then items
  else if items.length = limit ∧ ∀ last, items.getLast? = some last → cmp item last ≠ .lt then items
  else (sortBy cmp (items ++ [item])).take limit

/-- Whether equal means the same, for the items of a list. -/
def TellsApart (cmp : α → α → Ordering) (items : List α) : Prop :=
  ∀ a ∈ items, ∀ b ∈ items, cmp a b = .eq → a = b

lemma TellsApart.mono {items items' : List α} (h : TellsApart cmp items')
    (hsub : ∀ a ∈ items, a ∈ items') : TellsApart cmp items :=
  fun a ha b hb => h a (hsub a ha) b (hsub b hb)

/-! ## §1 What the least items are -/

lemma length_topBy (items : List α) : (topBy cmp limit items).length = min limit items.length := by
  rw [topBy, length_take, (sortBy_perm cmp items).length_eq]

lemma mem_of_mem_topBy {items : List α} {a : α} (h : a ∈ topBy cmp limit items) : a ∈ items :=
  mem_sortBy.mp (mem_of_mem_take h)

@[simp] lemma topBy_nil : topBy cmp limit ([] : List α) = [] := by
  simp [topBy, sortBy]

variable [Std.TransCmp cmp]

lemma topBy_congr {items items' : List α} (hperm : items.Perm items')
    (happart : TellsApart cmp items) : topBy cmp limit items = topBy cmp limit items' := by
  rw [topBy, topBy, sortBy_eq_of_perm hperm happart]

/-- The least items and the others. -/
theorem topBy_split (cmp : α → α → Ordering) [Std.TransCmp cmp] (limit : ℕ) (items : List α) :
    ∃ others, items.Perm (topBy cmp limit items ++ others) ∧
      (topBy cmp limit items).Pairwise (fun a b => (cmp a b).isLE = true) ∧
      (∀ a ∈ topBy cmp limit items, ∀ b ∈ others, (cmp a b).isLE = true) ∧
      (others ≠ [] → (topBy cmp limit items).length = limit) := by
  have hsorted := pairwise_sortBy cmp items
  rw [← take_append_drop limit (sortBy cmp items)] at hsorted
  obtain ⟨hfirst, -, hcross⟩ := pairwise_append.mp hsorted
  refine ⟨(sortBy cmp items).drop limit, ?_, hfirst, hcross, fun hne => ?_⟩
  · rw [topBy, take_append_drop]
    exact (sortBy_perm cmp items).symm
  · -- something was dropped, so the sorted list is longer than the limit
    have hlonger : limit < (sortBy cmp items).length := by
      by_contra hshort
      exact hne (drop_eq_nil_of_le (not_lt.mp hshort))
    rw [topBy, length_take]
    exact min_eq_left hlonger.le

/-- A sorted list that comes before all other items is the list of the least ones. -/
theorem topBy_eq_of_split {items least others : List α} (hperm : items.Perm (least ++ others))
    (happart : TellsApart cmp items) (hsorted : least.Pairwise fun a b => (cmp a b).isLE = true)
    (hcross : ∀ a ∈ least, ∀ b ∈ others, (cmp a b).isLE = true) (hlength : least.length ≤ limit)
    (hfull : others ≠ [] → least.length = limit) : topBy cmp limit items = least := by
  have hall : (least ++ sortBy cmp others).Pairwise fun a b => (cmp a b).isLE = true := by
    refine pairwise_append.mpr ⟨hsorted, pairwise_sortBy cmp others, ?_⟩
    intro a ha b hb
    exact hcross a ha b (mem_sortBy.mp hb)
  have hperm' : items.Perm (least ++ sortBy cmp others) :=
    hperm.trans ((sortBy_perm cmp others).symm.append_left least)
  have hsort : sortBy cmp items = least ++ sortBy cmp others := by
    rw [sortBy_eq_of_perm hperm' happart, sortBy]
    exact hall.insertionSort_eq
  rw [topBy, hsort]
  rcases eq_or_ne others [] with hnil | hne
  · subst hnil
    have hempty : sortBy cmp ([] : List α) = [] := rfl
    rw [hempty, append_nil, take_of_length_le hlength]
  · rw [← hfull hne, take_left]

omit [Std.TransCmp cmp] in
lemma TellsApart.topBy_right {items more : List α} (h : TellsApart cmp (items ++ more)) :
    TellsApart cmp (items ++ topBy cmp limit more) := by
  refine h.mono fun a ha => ?_
  rcases mem_append.mp ha with ha | ha
  · exact mem_append_left _ ha
  · exact mem_append_right _ (mem_of_mem_topBy ha)

/-! ## §2 Dropping early -/

/-- Nothing dropped from a full collection comes before one of the least items that are left: the
collection itself would fill them. -/
theorem not_lt_of_dropped {first more least others : List α} {a d : α}
    (hsplit : (first ++ more).Perm (least ++ others)) (hfull : first.length = limit)
    (hlength : least.length ≤ limit) (hmem : a ∈ least)
    (hothers : ∀ b ∈ others, (cmp a b).isLE = true) (hfirst : ∀ b ∈ first, (cmp b d).isLE = true) :
    cmp d a ≠ .lt := by
  intro hlt
  let before : α → Bool := fun b => cmp b a == .lt
  have hin : first.countP before = first.length := by
    refine countP_eq_length.mpr fun b hb => ?_
    exact beq_iff_eq.mpr (Std.TransCmp.lt_of_isLE_of_lt (hfirst b hb) hlt)
  have hout : others.countP before = 0 := by
    refine countP_eq_zero.mpr fun b hb hbefore => ?_
    have hgt := Std.OrientedCmp.gt_of_lt (beq_iff_eq.mp hbefore)
    have hle := hothers b hb
    rw [hgt] at hle
    cases hle
  have hcount := hsplit.countP_eq before
  rw [countP_append, countP_append, hin, hout, hfull] at hcount
  have hself : before a = false := by
    simp only [before, Std.ReflCmp.compare_self]
    rfl
  have hless : least.countP before < least.length := by
    refine lt_of_le_of_ne countP_le_length fun heq => ?_
    have htrue := countP_eq_length.mp heq a hmem
    rw [hself] at htrue
    cases htrue
  omega

section

variable {items more : List α} (happart : TellsApart cmp (items ++ more))

include happart

lemma topBy_absorb :
    topBy cmp limit (topBy cmp limit items ++ more) = topBy cmp limit (items ++ more) := by
  obtain ⟨dropped, hsplit, -, hleDropped, hfullFirst⟩ := topBy_split cmp limit items
  generalize topBy cmp limit items = first at hsplit hleDropped hfullFirst ⊢
  obtain ⟨others, hsplit', hsorted, hleOthers, hfullLeast⟩ :=
    topBy_split cmp limit (first ++ more)
  have hlength : (topBy cmp limit (first ++ more)).length ≤ limit := by
    rw [length_topBy]
    exact min_le_left _ _
  generalize topBy cmp limit (first ++ more) = least at *
  have hperm : (items ++ more).Perm (least ++ (others ++ dropped)) := by
    calc (items ++ more).Perm ((first ++ dropped) ++ more) := hsplit.append_right more
      _ |>.Perm ((first ++ more) ++ dropped) := by
        rw [append_assoc, append_assoc]
        exact perm_append_comm.append_left first
      _ |>.Perm ((least ++ others) ++ dropped) := hsplit'.append_right dropped
      _ |>.Perm (least ++ (others ++ dropped)) := by rw [append_assoc]
  refine (topBy_eq_of_split hperm happart hsorted ?_ hlength ?_).symm
  · intro a ha b hb
    rcases mem_append.mp hb with hb | hb
    · exact hleOthers a ha b hb
    · have hnot : cmp b a ≠ .lt :=
        not_lt_of_dropped hsplit' (hfullFirst (ne_nil_of_mem hb)) hlength ha (hleOthers a ha)
          fun c hc => hleDropped c hc b hb
      exact Ordering.isLE_iff_ne_gt.mpr fun hgt => hnot (Std.OrientedCmp.lt_of_gt hgt)
  · intro hne
    rcases eq_or_ne others [] with hnil | hothers
    · -- all of `first` and `more` was kept, and `first` was full
      subst hnil
      have hdropped : dropped ≠ [] := by simpa using hne
      have hfirst := hfullFirst hdropped
      have hcount := hsplit'.length_eq
      simp only [length_append, length_nil] at hcount
      omega
    · exact hfullLeast hothers

lemma topBy_absorb_right :
    topBy cmp limit (items ++ topBy cmp limit more) = topBy cmp limit (items ++ more) := by
  have hswap : TellsApart cmp (more ++ items) :=
    happart.mono fun a ha => by simpa [or_comm] using ha
  have hpart : TellsApart cmp (items ++ topBy cmp limit more) := happart.topBy_right
  rw [topBy_congr perm_append_comm hpart, topBy_absorb hswap, topBy_congr perm_append_comm hswap]

lemma topBy_append :
    topBy cmp limit (topBy cmp limit items ++ topBy cmp limit more) =
      topBy cmp limit (items ++ more) := by
  have hpart : TellsApart cmp (items ++ topBy cmp limit more) := happart.topBy_right
  rw [topBy_absorb hpart, topBy_absorb_right happart]

end

omit [Std.TransCmp cmp] in
lemma nodup_map_topBy_append {f : α → β} {items more : List α}
    (hnodup : ((items ++ more).map f).Nodup) :
    ((topBy cmp limit items ++ topBy cmp limit more).map f).Nodup := by
  have hsorted : (sortBy cmp items ++ sortBy cmp more).Perm (items ++ more) :=
    (sortBy_perm cmp items).append (sortBy_perm cmp more)
  have hsub : (topBy cmp limit items ++ topBy cmp limit more).Sublist
      (sortBy cmp items ++ sortBy cmp more) :=
    (take_sublist _ _).append (take_sublist _ _)
  exact ((hsorted.map f).nodup_iff.mpr hnodup).sublist (hsub.map f)

/-! ## §3 Inserting one by one -/

/-- Nothing in a sorted list is greater than an item its last one is not greater than. -/
theorem isLE_of_last {items : List α} {item a : α}
    (hsorted : items.Pairwise fun a b => (cmp a b).isLE = true)
    (hlast : ∀ last, items.getLast? = some last → cmp item last ≠ .lt) (ha : a ∈ items) :
    (cmp a item).isLE = true := by
  have hne : items ≠ [] := ne_nil_of_mem ha
  have hle : (cmp (items.getLast hne) item).isLE = true := by
    refine Ordering.isLE_iff_ne_gt.mpr fun hgt => ?_
    exact hlast _ (getLast?_eq_some_getLast hne) (Std.OrientedCmp.lt_of_gt hgt)
  rw [← dropLast_append_getLast hne] at ha hsorted
  rcases mem_append.mp ha with ha | ha
  · have hcross := (pairwise_append.mp hsorted).2.2 a ha _ mem_cons_self
    exact Std.TransCmp.isLE_trans hcross hle
  · rw [mem_singleton.mp ha]
    exact hle

/-- An item that is not less than the last of a full collection is not missed. -/
theorem insertBounded_topBy {items : List α} {item : α}
    (happart : TellsApart cmp (items ++ [item])) :
    insertBounded cmp limit (topBy cmp limit items) item = topBy cmp limit (items ++ [item]) := by
  rw [← topBy_absorb happart, insertBounded]
  split
  · next hzero =>
    subst hzero
    simp [topBy]
  · split
    · next hzero hfull =>
      obtain ⟨hlength, hlast⟩ := hfull
      have hsub : TellsApart cmp (topBy cmp limit items ++ [item]) := by
        refine happart.mono fun a ha => ?_
        rcases mem_append.mp ha with ha | ha
        · exact mem_append_left _ (mem_of_mem_topBy ha)
        · exact mem_append_right _ ha
      obtain ⟨-, -, hsorted, -, -⟩ := topBy_split cmp limit items
      symm
      refine topBy_eq_of_split (Perm.refl _) hsub hsorted ?_ hlength.le fun _ => hlength
      intro a ha b hb
      rw [mem_singleton.mp hb]
      exact isLE_of_last hsorted hlast ha
    · rfl

lemma foldl_insertBounded (arrivals : List α) {items : List α}
    (happart : TellsApart cmp (items ++ arrivals)) :
    arrivals.foldl (insertBounded cmp limit) (topBy cmp limit items) =
      topBy cmp limit (items ++ arrivals) := by
  induction arrivals generalizing items with
  | nil => simp
  | cons item rest ih =>
    have hcons : items ++ item :: rest = (items ++ [item]) ++ rest := by simp
    rw [hcons] at happart ⊢
    rw [foldl_cons, insertBounded_topBy (happart.mono fun a => mem_append_left rest), ih happart]

lemma foldl_insertBounded_nil {arrivals : List α} (happart : TellsApart cmp arrivals) :
    arrivals.foldl (insertBounded cmp limit) [] = topBy cmp limit arrivals := by
  simpa using @foldl_insertBounded α cmp limit _ arrivals [] happart

/-- Several full collections, inserted one after the other. -/
theorem foldl_insertBounded_parts (parts : List (List α)) {items : List α}
    (happart : TellsApart cmp (items ++ parts.flatten)) :
    (parts.map (topBy cmp limit)).flatten.foldl (insertBounded cmp limit) (topBy cmp limit items) =
      topBy cmp limit (items ++ parts.flatten) := by
  induction parts generalizing items with
  | nil => simp
  | cons part rest ih =>
    rw [flatten_cons, ← append_assoc] at happart
    have hhere : TellsApart cmp (items ++ part) :=
      happart.mono fun a => mem_append_left rest.flatten
    rw [map_cons, flatten_cons, foldl_append, foldl_insertBounded _ hhere.topBy_right,
      topBy_absorb_right hhere, ih happart, flatten_cons, append_assoc]

lemma foldl_insertBounded_parts_nil {parts : List (List α)}
    (happart : TellsApart cmp parts.flatten) :
    (parts.map (topBy cmp limit)).flatten.foldl (insertBounded cmp limit) [] =
      topBy cmp limit parts.flatten := by
  simpa using @foldl_insertBounded_parts α cmp limit _ parts [] happart

omit [Std.TransCmp cmp] in
lemma topBy_map {cmp' : β → β → Ordering} (f : α → β) {items : List α}
    (h : ∀ a ∈ items, ∀ b ∈ items, cmp a b = cmp' (f a) (f b)) :
    (topBy cmp limit items).map f = topBy cmp' limit (items.map f) := by
  rw [topBy, map_take, sortBy_map f h, topBy]

end Kwiry.Foundations
