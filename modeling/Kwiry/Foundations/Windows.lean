import Kwiry.Foundations.Sorting

/-!
# Windows of Ordered Items

A map from keys to flags, kept in the order of the keys, and the first keys of it. A window that is
filled from several sorted streams, each of them cut off after as many items, has the same first
items as one that is filled from all of them.
-/

namespace Kwiry.Foundations

open Std

variable {α : Type*} {cmp : α → α → Ordering}

/-! ## §1 An ordered map to flags -/

/-- Notes a key; a flag that is set stays set. -/
def note (cmp : α → α → Ordering) (window : List (α × Bool)) (key : α) (flag : Bool) :
    List (α × Bool) :=
  match window with
  | [] => [(key, flag)]
  | (other, set) :: rest =>
    match cmp key other with
    | .lt => (key, flag) :: (other, set) :: rest
    | .eq => (other, set || flag) :: rest
    | .gt => (other, set) :: note cmp rest key flag

def noteAll (cmp : α → α → Ordering) (entries : List (α × Bool)) : List (α × Bool) :=
  entries.foldl (fun window entry => note cmp window entry.1 entry.2) []

section Notes

variable [TransCmp cmp] [LawfulEqCmp cmp]

variable {window : List (α × Bool)}

omit [TransCmp cmp] in
lemma mem_keys_note {key a : α} {flag : Bool} :
    a ∈ (note cmp window key flag).map Prod.fst ↔ a = key ∨ a ∈ window.map Prod.fst := by
  induction window with
  | nil => simp [note]
  | cons entry rest ih =>
    obtain ⟨other, set⟩ := entry
    rw [note]
    split
    · simp
    · next heq =>
      have hkey : key = other := LawfulEqCmp.eq_of_compare heq
      simp [hkey]
    · simp only [List.map_cons, List.mem_cons, ih]
      tauto

omit [TransCmp cmp] in
lemma mem_note_true {key a : α} {flag : Bool} :
    (a, true) ∈ note cmp window key flag ↔ (a, true) ∈ window ∨ a = key ∧ flag = true := by
  induction window with
  | nil => simp [note, eq_comm]
  | cons entry rest ih =>
    obtain ⟨other, set⟩ := entry
    rw [note]
    split
    · simp only [List.mem_cons, Prod.mk.injEq]
      tauto
    · next heq =>
      have hkey : key = other := LawfulEqCmp.eq_of_compare heq
      subst hkey
      simp only [List.mem_cons, Prod.mk.injEq, eq_comm (a := true), Bool.or_eq_true]
      tauto
    · simp only [List.mem_cons, ih]
      tauto

lemma note_sorted (key : α) (flag : Bool)
    (h : (window.map Prod.fst).Pairwise fun a b => cmp a b = .lt) :
    ((note cmp window key flag).map Prod.fst).Pairwise fun a b => cmp a b = .lt := by
  induction window with
  | nil => simp [note]
  | cons entry rest ih =>
    obtain ⟨other, set⟩ := entry
    rw [List.map_cons, List.pairwise_cons] at h
    rw [note]
    split
    · next hlt =>
      refine List.pairwise_cons.mpr ⟨fun b hb => ?_, List.pairwise_cons.mpr h⟩
      rcases List.mem_cons.mp hb with rfl | hb
      · exact hlt
      · exact TransCmp.lt_trans hlt (h.1 b hb)
    · exact List.pairwise_cons.mpr h
    · next hgt =>
      refine List.pairwise_cons.mpr ⟨fun b hb => ?_, ih h.2⟩
      rcases mem_keys_note.mp hb with rfl | hb
      · exact OrientedCmp.lt_of_gt hgt
      · exact h.1 b hb

lemma noteAll_spec (entries : List (α × Bool)) :
    ((noteAll cmp entries).map Prod.fst).Pairwise (fun a b => cmp a b = .lt) ∧
      (∀ a, a ∈ (noteAll cmp entries).map Prod.fst ↔ a ∈ entries.map Prod.fst) ∧
      ∀ a, (a, true) ∈ noteAll cmp entries ↔ (a, true) ∈ entries := by
  have hrun : ∀ (entries : List (α × Bool)) (window : List (α × Bool)),
      (window.map Prod.fst).Pairwise (fun a b => cmp a b = .lt) →
      ((entries.foldl (fun window entry => note cmp window entry.1 entry.2) window).map
          Prod.fst).Pairwise (fun a b => cmp a b = .lt) ∧
        (∀ a, a ∈ (entries.foldl (fun window entry => note cmp window entry.1 entry.2) window).map
            Prod.fst ↔ a ∈ window.map Prod.fst ∨ a ∈ entries.map Prod.fst) ∧
        ∀ a, (a, true) ∈ entries.foldl (fun window entry => note cmp window entry.1 entry.2) window ↔
          (a, true) ∈ window ∨ (a, true) ∈ entries := by
    intro entries
    induction entries with
    | nil => exact fun window h => ⟨h, by simp, by simp⟩
    | cons entry rest ih =>
      intro window h
      obtain ⟨hsorted, hkeys, hflags⟩ := ih _ (note_sorted entry.1 entry.2 h)
      refine ⟨hsorted, fun a => ?_, fun a => ?_⟩
      · rw [List.foldl_cons, hkeys, mem_keys_note, List.map_cons, List.mem_cons]
        tauto
      · obtain ⟨key, flag⟩ := entry
        rw [List.foldl_cons, hflags, mem_note_true, List.mem_cons, Prod.mk.injEq,
          eq_comm (a := true)]
        tauto
  simpa [noteAll] using hrun entries [] List.Pairwise.nil

end Notes

/-! ## §2 First items -/

/-- A strict order of the items by a comparator. -/
def Ascending (cmp : α → α → Ordering) (items : List α) : Prop :=
  items.Pairwise fun a b => cmp a b = .lt

variable {items p part whole : List α}

section Order

variable [TransCmp cmp]

lemma Ascending.nodup (h : Ascending cmp items) : items.Nodup := by
  refine h.imp fun {a b} hlt heq => ?_
  have hself : cmp b b = .eq := ReflCmp.compare_self
  rw [heq, hself] at hlt
  cases hlt

lemma Ascending.sublist_of_subset (hpart : Ascending cmp part) (hwhole : Ascending cmp whole)
    (h : part ⊆ whole) : part.Sublist whole := by
  have hantisymm : Antisymm fun a b => cmp a b = .lt := by
    refine ⟨fun a b hab hba => ?_⟩
    rw [OrientedCmp.gt_of_lt hab] at hba
    cases hba
  exact List.sublist_of_subperm_of_pairwise (List.subperm_of_subset hpart.nodup h) hpart hwhole

lemma ascending_sortBy [LawfulEqCmp cmp] (h : items.Nodup) :
    Ascending cmp (sortBy cmp items) := by
  have hnodup : (sortBy cmp items).Nodup := (sortBy_perm cmp items).nodup_iff.mpr h
  refine (hnodup.and (pairwise_sortBy cmp items)).imp fun {a b} hab => ?_
  obtain ⟨hne, hle⟩ := hab
  cases hcmp : cmp a b with
  | lt => rfl
  | eq => exact absurd (LawfulEqCmp.eq_of_compare hcmp) hne
  | gt => simp [hcmp] at hle

end Order

variable {limit n : ℕ}

lemma take_eq_of_sublist (h : part.Sublist whole) (hnodup : whole.Nodup)
    (hfirst : ∀ a ∈ whole.take n, a ∈ part) : part.take n = whole.take n := by
  induction h generalizing n with
  | slnil => rfl
  | @cons part whole a h ih =>
    -- the whole begins with an item the part does not have
    cases n with
    | zero => rfl
    | succ n =>
      have hmem : a ∈ part := hfirst a (by simp)
      exact absurd (h.subset hmem) (List.nodup_cons.mp hnodup).1
  | @cons_cons part whole a h ih =>
    cases n with
    | zero => rfl
    | succ n =>
      rw [List.take_succ_cons, List.take_succ_cons, ih (List.nodup_cons.mp hnodup).2]
      intro b hb
      have hne : b ≠ a := by
        rintro rfl
        exact (List.nodup_cons.mp hnodup).1 (List.mem_of_mem_take hb)
      have hmem := hfirst b (by simp [hb])
      exact (List.mem_cons.mp hmem).resolve_left hne

lemma mem_take_of_sublist {a : α} (h : part.Sublist whole) (hnodup : whole.Nodup)
    (hmem : a ∈ part) (hfirst : a ∈ whole.take n) : a ∈ part.take n := by
  induction h generalizing n with
  | slnil => cases hmem
  | @cons part whole b h ih =>
    cases n with
    | zero => cases hfirst
    | succ n =>
      have hne : a ≠ b := by
        rintro rfl
        exact (List.nodup_cons.mp hnodup).1 (h.subset hmem)
      have hrest : a ∈ whole.take n := by
        rw [List.take_succ_cons] at hfirst
        exact (List.mem_cons.mp hfirst).resolve_left hne
      have htake := ih (List.nodup_cons.mp hnodup).2 hmem hrest
      exact (List.take_sublist_take_left (Nat.le_succ n)).subset htake
  | @cons_cons part whole b h ih =>
    cases n with
    | zero => cases hfirst
    | succ n =>
      rw [List.take_succ_cons] at hfirst ⊢
      by_cases hab : a = b
      · exact List.mem_cons.mpr (.inl hab)
      · have hrest := (List.mem_cons.mp hfirst).resolve_left hab
        have hpart := (List.mem_cons.mp hmem).resolve_left hab
        exact List.mem_cons_of_mem _ (ih (List.nodup_cons.mp hnodup).2 hpart hrest)

/-! ## §3 Streams that are cut off -/

/-- Items in their order, from a place that is flagged or not. -/
structure Stream (cmp : α → α → Ordering) where
  items : List α
  flag : Bool
  ascending : Ascending cmp items

/-- What is noted of streams that are cut off after as many items. -/
def noteStreams (limit : ℕ) (streams : List (Stream cmp)) : List (α × Bool) :=
  noteAll cmp (streams.flatMap fun stream => (stream.items.take limit).map (·, stream.flag))

/-- The items of a union of streams, in their order. -/
structure UnionOf (streams : List (Stream cmp)) (union : List α) : Prop where
  ascending : Ascending cmp union
  mem_iff : ∀ a, a ∈ union ↔ ∃ stream ∈ streams, a ∈ stream.items

section Streams

variable [TransCmp cmp] [LawfulEqCmp cmp] {streams : List (Stream cmp)} {union : List α}

omit [LawfulEqCmp cmp] in
lemma UnionOf.sublist (h : UnionOf streams union) {stream : Stream cmp}
    (hmem : stream ∈ streams) : stream.items.Sublist union :=
  stream.ascending.sublist_of_subset h.ascending fun a ha => (h.mem_iff a).mpr ⟨stream, hmem, ha⟩

lemma mem_keys_noteStreams {a : α} :
    a ∈ (noteStreams limit streams).map Prod.fst ↔
      ∃ stream ∈ streams, a ∈ stream.items.take limit := by
  rw [noteStreams, (noteAll_spec _).2.1, List.map_flatMap, List.mem_flatMap]
  simp only [List.map_map, Function.comp_def, List.map_id']

lemma mem_noteStreams_true {a : α} :
    (a, true) ∈ noteStreams limit streams ↔
      ∃ stream ∈ streams, stream.flag = true ∧ a ∈ stream.items.take limit := by
  rw [noteStreams, (noteAll_spec _).2.2]
  simp only [List.mem_flatMap, List.mem_map, Prod.mk.injEq, ↓existsAndEq, true_and]
  tauto

lemma take_keys_noteStreams (h : UnionOf streams union) (limit : ℕ) :
    ((noteStreams limit streams).map Prod.fst).take limit = union.take limit := by
  have hascending : Ascending cmp ((noteStreams limit streams).map Prod.fst) := (noteAll_spec _).1
  have hsubset : (noteStreams limit streams).map Prod.fst ⊆ union := by
    intro a ha
    obtain ⟨stream, hmem, htake⟩ := mem_keys_noteStreams.mp ha
    exact (h.mem_iff a).mpr ⟨stream, hmem, List.mem_of_mem_take htake⟩
  refine take_eq_of_sublist (hascending.sublist_of_subset h.ascending hsubset) h.ascending.nodup ?_
  -- fewer items precede it in its own stream than in the union
  intro a ha
  obtain ⟨stream, hmem, hitem⟩ := (h.mem_iff a).mp (List.mem_of_mem_take ha)
  have htake := mem_take_of_sublist (h.sublist hmem) h.ascending.nodup hitem ha
  exact mem_keys_noteStreams.mpr ⟨stream, hmem, htake⟩

/-- The first items of streams that are cut off are those of the whole union, and each is flagged
as in the whole union. -/
theorem take_noteStreams [BEq α] [LawfulBEq α] (h : UnionOf streams union) (limit : ℕ) :
    (noteStreams limit streams).take limit = (union.take limit).map fun a =>
      (a, streams.any fun stream => stream.flag && decide (a ∈ stream.items)) := by
  have hkeys := take_keys_noteStreams h limit
  rw [← List.map_take] at hkeys
  have hflag : ∀ entry ∈ (noteStreams limit streams).take limit,
      entry.2 = streams.any fun stream => stream.flag && decide (entry.1 ∈ stream.items) := by
    rintro ⟨a, flag⟩ hentry
    have ha : a ∈ union.take limit := hkeys ▸ List.mem_map_of_mem hentry
    have hnodup : ((noteStreams limit streams).map Prod.fst).Nodup :=
      (show Ascending cmp _ from (noteAll_spec _).1).nodup
    have hset : flag = true ↔ (a, true) ∈ noteStreams limit streams := by
      constructor
      · rintro rfl
        exact List.mem_of_mem_take hentry
      · intro htrue
        exact congrArg Prod.snd
          (List.inj_on_of_nodup_map hnodup (List.mem_of_mem_take hentry) htrue rfl)
    rw [Bool.eq_iff_iff, hset, mem_noteStreams_true, List.any_eq_true]
    refine exists_congr fun stream => and_congr_right fun hmem => ?_
    rw [Bool.and_eq_true, decide_eq_true_iff]
    refine and_congr_right fun _ => ⟨List.mem_of_mem_take, fun hitem => ?_⟩
    exact mem_take_of_sublist (h.sublist hmem) h.ascending.nodup hitem ha
  rw [← hkeys, List.map_map]
  conv_lhs => rw [← List.map_id ((noteStreams limit streams).take limit)]
  exact List.map_congr_left fun entry hentry => Prod.ext rfl (hflag entry hentry)

lemma exists_ne_noteStreams (h : UnionOf streams union) (hlimit : 2 ≤ limit) (p : α) :
    (∃ a ∈ (noteStreams limit streams).map Prod.fst, a ≠ p) ↔ ∃ a ∈ union, a ≠ p := by
  constructor
  · rintro ⟨a, ha, hne⟩
    obtain ⟨stream, hmem, htake⟩ := mem_keys_noteStreams.mp ha
    exact ⟨a, (h.mem_iff a).mpr ⟨stream, hmem, List.mem_of_mem_take htake⟩, hne⟩
  · rintro ⟨a, ha, hne⟩
    obtain ⟨stream, hmem, hitem⟩ := (h.mem_iff a).mp ha
    suffices ∃ b ∈ stream.items.take 2, b ≠ p by
      obtain ⟨b, hb, hbp⟩ := this
      have htake := (List.take_sublist_take_left hlimit).subset hb
      exact ⟨b, mem_keys_noteStreams.mpr ⟨stream, hmem, htake⟩, hbp⟩
    have hnodup := stream.ascending.nodup
    match hitems : stream.items with
    | [] => rw [hitems] at hitem; cases hitem
    | [first] =>
      rw [hitems, List.mem_singleton] at hitem
      exact ⟨first, by simp, hitem ▸ hne⟩
    | first :: second :: rest =>
      rw [hitems] at hnodup
      have hsecond : first ≠ second := by
        rintro rfl
        simp at hnodup
      by_cases hfirst : first = p
      · exact ⟨second, by simp, fun heq => hsecond (hfirst.trans heq.symm)⟩
      · exact ⟨first, by simp, hfirst⟩

end Streams

/-! ## §4 Words with a prefix -/

lemma not_lt_of_prefix [Ord α] [ReflOrd α] {word : List α} (h : p <+: word) :
    compare word p ≠ .lt := by
  obtain ⟨rest, rfl⟩ := h
  induction p with
  | nil => cases rest <;> simp
  | cons c p ih =>
    rw [List.cons_append, List.compare_cons_cons, ReflOrd.compare_self]
    exact ih

/-- Between a prefix and a word that has it there are only words that have it. -/
theorem prefix_of_between [Ord α] [TransOrd α] [LawfulEqOrd α] {a b : List α}
    (hpa : compare a p ≠ .lt) (hab : compare a b = .lt) (hpb : p <+: b) : p <+: a := by
  obtain ⟨rest, rfl⟩ := hpb
  induction p generalizing a with
  | nil => exact List.nil_prefix
  | cons c p ih =>
    cases a with
    | nil => exact absurd rfl hpa
    | cons d a =>
      rw [List.compare_cons_cons] at hpa
      rw [List.cons_append, List.compare_cons_cons] at hab
      -- the words agree in their first letter, since it is neither below nor above
      cases hdc : compare d c with
      | lt => simp [hdc] at hpa
      | gt => simp [hdc] at hab
      | eq =>
        have heq : d = c := LawfulEqOrd.eq_of_compare hdc
        subst heq
        simp only [hdc, Ordering.eq_then] at hpa hab
        exact List.cons_prefix_cons.mpr ⟨rfl, ih hpa hab⟩

/-- In a dictionary the words with a prefix stand together, and the first of them is the first word
that is not below the prefix. -/
theorem prefix_run_eq_filter [Ord α] [BEq α] [LawfulBEq α] [TransOrd α] [LawfulEqOrd α]
    {words : List (List α)} (h : Ascending compare words) (p : List α) :
    (words.dropWhile fun word => compare word p = .lt).takeWhile (p.isPrefixOf ·) =
      words.filter (p.isPrefixOf ·) := by
  have hrun : ∀ {words : List (List α)}, Ascending compare words →
      (∀ word ∈ words, compare word p ≠ .lt) →
      words.takeWhile (p.isPrefixOf ·) = words.filter (p.isPrefixOf ·) := by
    intro words h hle
    induction words with
    | nil => rfl
    | cons word rest ih =>
      have hrest := List.pairwise_cons.mp h
      by_cases hp : p <+: word
      · rw [List.takeWhile_cons_of_pos (List.isPrefixOf_iff_prefix.mpr hp),
          List.filter_cons_of_pos (List.isPrefixOf_iff_prefix.mpr hp),
          ih hrest.2 fun b hb => hle b (List.mem_cons_of_mem _ hb)]
      · -- no later word has the prefix either
        have hnone : ∀ b ∈ word :: rest, ¬ (p.isPrefixOf b) = true := by
          intro b hb hpb
          rw [List.isPrefixOf_iff_prefix] at hpb
          rcases List.mem_cons.mp hb with rfl | hb
          · exact hp hpb
          · exact hp (prefix_of_between (hle word List.mem_cons_self) (hrest.1 b hb) hpb)
        rw [List.takeWhile_cons_of_neg (hnone word List.mem_cons_self), List.filter_eq_nil_iff.mpr hnone]
  induction words with
  | nil => rfl
  | cons word rest ih =>
    have hrest := List.pairwise_cons.mp h
    by_cases hlt : compare word p = .lt
    · have hp : ¬ (p.isPrefixOf word) = true := fun hp =>
        not_lt_of_prefix (List.isPrefixOf_iff_prefix.mp hp) hlt
      rw [List.dropWhile_cons_of_pos (by simpa using hlt), List.filter_cons_of_neg hp, ih hrest.2]
    · rw [List.dropWhile_cons_of_neg (by simpa using hlt)]
      refine hrun h fun b hb => ?_
      rcases List.mem_cons.mp hb with rfl | hb
      · exact hlt
      · exact fun hbp => hlt (TransCmp.lt_trans (hrest.1 b hb) hbp)

end Kwiry.Foundations
