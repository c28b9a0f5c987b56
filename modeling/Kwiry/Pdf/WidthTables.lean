import Mathlib.Data.List.Destutter
import Mathlib.Data.List.DropRight
import Mathlib.Data.List.TakeWhile
import Kwiry.Foundations.Sorting
import Kwiry.Pdf.Objects

/-!
# Width Tables of Composite Fonts

A composite font's width array declares ranges of codes, in a list form and in a range form. They
are read as long as fewer than the most a table may have are there when an entry begins, so one list
may take a table past its bound. What was read is sorted, and of ranges that start alike the shortest
stays. A code is looked up in the last range that starts at or below it: where that range has ended,
an earlier one that reaches further is not found.
-/

namespace Kwiry.Pdf

open Foundations List

variable {F : Type}

/-! ## §1 The reader -/

/-- The widths of a composite font: ranges of codes, and the width of every other code. -/
inductive Widths (F : Type) where
  | composite (ranges : List (ℕ × ℕ × F)) (defaultWidth : F)

/-- The range a code lies in: the last one that starts at or below it. -/
def lookupRange (ranges : List (ℕ × ℕ × F)) (code : ℕ) : Option F :=
  (ranges.takeWhile (·.1 ≤ code)).getLast?.bind fun (low, high, width) =>
    if low ≤ code ∧ code ≤ high then some width else none

section Reading

variable [Float64 F] (document : Document F)

/-- A number as a character code. -/
def finiteCode (value : F) : Option ℕ :=
  if Float64.isFinite value ∧ Float64.le (lit 0) value ∧ Float64.le value (lit maxU32) then
    some (Float64.toInt value).toNat
  else none

/-- The ranges of a composite font's width array, in the order it declares them, and whether its
tail was dropped. -/
def collectRanges (defaultWidth : F) :
    List (Object F) → List (ℕ × ℕ × F) → List (ℕ × ℕ × F) × Bool
  | [], ranges => (ranges, false)
  | entry :: rest, ranges =>
    if maxFontWidthEntries ≤ ranges.length then (ranges, true)
    else match entry.number.bind finiteCode with
      | none => collectRanges defaultWidth rest ranges
      | some first =>
        match rest with
        -- `c [w1 w2 …]`: one range for each width
        | .array widths :: rest =>
          let codes := (widths.zipIdx.takeWhile fun (_, offset) => first + offset ≤ maxU32).map
            fun (width, offset) => (first + offset, first + offset, width.number.getD (lit 0))
          collectRanges defaultWidth rest (ranges ++ codes)
        -- `c_first c_last w`, whose width may be missing at the end
        | second :: rest =>
          let last := (second.number.bind finiteCode).getD first
          let width := (rest.head?.bind Object.number).getD defaultWidth
          collectRanges defaultWidth (rest.drop 1) (ranges ++ [(first, max last first, width)])
        | [] => (ranges, false)
  termination_by entries => entries.length

/-- The widths of a composite font, and whether their tail was dropped. -/
def compositeWidths (descendant : Dictionary F) : Widths F × Bool :=
  let defaultWidth := ((document.getDeref descendant (ascii "DW")).bind Object.number).getD
    (lit 1000)
  let (ranges, truncated) :=
    match (document.getDeref descendant (ascii "W")).bind Object.asArray with
    | some entries => collectRanges defaultWidth entries []
    | none => ([], false)
  let sorted := sortBy (fun r s => (compare r.1 s.1).then (compare r.2.1 s.2.1)) ranges
  (.composite (sorted.destutter fun r s => r.1 ≠ s.1) defaultWidth, truncated)

end Reading

abbrev WidthRange (F : Type) := ℕ × ℕ × F

/-! ## §2 What an array declares -/

section

variable [Float64 F]

/-- The ranges of each entry of a width array. What is no code declares none. -/
def widthEntries (defaultWidth : F) : List (Object F) → List (List (WidthRange F))
  | [] => []
  | entry :: rest =>
    match entry.number.bind finiteCode with
    | none => [] :: widthEntries defaultWidth rest
    | some first =>
      match rest with
      | .array widths :: rest =>
        let codes := (widths.zipIdx.takeWhile fun (_, offset) => first + offset ≤ maxU32).map
          fun (width, offset) => (first + offset, first + offset, width.number.getD (lit 0))
        codes :: widthEntries defaultWidth rest
      | second :: rest =>
        let last := (second.number.bind finiteCode).getD first
        let width := (rest.head?.bind Object.number).getD defaultWidth
        [(first, max last first, width)] :: widthEntries defaultWidth (rest.drop 1)
      | [] => [[]]
termination_by entries => entries.length

/-- The ranges of the entries that begin below the bound, and the entries that do not. -/
def readEntries : List (List (WidthRange F)) → List (WidthRange F) →
    List (WidthRange F) × List (List (WidthRange F))
  | [], ranges => (ranges, [])
  | entry :: rest, ranges =>
    if maxFontWidthEntries ≤ ranges.length then (ranges, entry :: rest)
    else readEntries rest (ranges ++ entry)

section Forms

variable {defaultWidth : F} {entry : Object F} {first : ℕ}

variable {rest : List (Object F)}

lemma widthEntries_skipped (h : entry.number.bind finiteCode = none) :
    widthEntries defaultWidth (entry :: rest) = [] :: widthEntries defaultWidth rest := by
  rw [widthEntries.eq_def]
  simp only [h]

section

variable (h : entry.number.bind finiteCode = some first)

include h

lemma widthEntries_list {widths : List (Object F)} :
    widthEntries defaultWidth (entry :: .array widths :: rest) =
      ((widths.zipIdx.takeWhile fun (_, offset) => first + offset ≤ maxU32).map
        fun (width, offset) => (first + offset, first + offset, width.number.getD (lit 0))) ::
        widthEntries defaultWidth rest := by
  rw [widthEntries.eq_def]
  simp only [h]

lemma widthEntries_range {second : Object F} (hsecond : ∀ widths, second ≠ .array widths) :
    widthEntries defaultWidth (entry :: second :: rest) =
      [(first, max ((second.number.bind finiteCode).getD first) first,
        (rest.head?.bind Object.number).getD defaultWidth)] ::
        widthEntries defaultWidth (rest.drop 1) := by
  rw [widthEntries.eq_def]
  simp only [h]

lemma widthEntries_lone : widthEntries defaultWidth [entry] = [[]] := by
  rw [widthEntries.eq_def]
  simp only [h]

end

lemma widthEntries_cons (defaultWidth : F) (entry : Object F) (rest : List (Object F)) :
    ∃ head later, widthEntries defaultWidth (entry :: rest) = head :: later := by
  rw [widthEntries.eq_def]
  dsimp only
  split
  · exact ⟨_, _, rfl⟩
  · split <;> exact ⟨_, _, rfl⟩

end Forms

/-- What the reader collects are the entries that begin below the bound, and it says so when some do
not. -/
theorem collectRanges_eq (defaultWidth : F) (entries : List (Object F))
    (ranges : List (WidthRange F)) :
    collectRanges defaultWidth entries ranges =
      ((readEntries (widthEntries defaultWidth entries) ranges).1,
        !(readEntries (widthEntries defaultWidth entries) ranges).2.isEmpty) := by
  fun_induction collectRanges defaultWidth entries ranges with
  | case1 ranges => simp [widthEntries, readEntries]
  | case2 entry rest ranges hfull =>
    obtain ⟨head, later, heq⟩ := widthEntries_cons defaultWidth entry rest
    simp [heq, readEntries, hfull]
  | case3 entry rest ranges hroom hnone ih =>
    rw [ih, widthEntries_skipped hnone]
    simp [readEntries, hroom]
  | case4 entry ranges hroom first hfirst widths rest codes ih =>
    rw [ih, widthEntries_list hfirst]
    simp [readEntries, hroom, codes]
  | case5 entry ranges hroom first hfirst second rest harray last width ih =>
    rw [ih, widthEntries_range hfirst harray]
    simp [readEntries, hroom, last, width]
  | case6 entry ranges hroom first hfirst =>
    rw [widthEntries_lone hfirst]
    simp [readEntries, hroom]

end

/-! ## §3 The table -/

/-- Ranges in the order of their first and last codes, the first of those that start alike. -/
def widthTable (ranges : List (WidthRange F)) : List (WidthRange F) :=
  (sortBy (fun r s => (compare r.1 s.1).then (compare r.2.1 s.2.1)) ranges).destutter
    fun r s => r.1 ≠ s.1

variable {ranges table : List (WidthRange F)}

instance transCmpRange : Std.TransCmp fun r s : WidthRange F =>
    (compare r.1 s.1).then (compare r.2.1 s.2.1) :=
  inferInstanceAs (Std.TransCmp (compareLex (compareOn fun r : WidthRange F => r.1)
    (compareOn fun r : WidthRange F => r.2.1)))

lemma pairwise_sorted (ranges : List (WidthRange F)) :
    (sortBy (fun r s => (compare r.1 s.1).then (compare r.2.1 s.2.1)) ranges).Pairwise
      fun r s => r.1 < s.1 ∨ r.1 = s.1 ∧ r.2.1 ≤ s.2.1 := by
  refine (pairwise_sortBy _ ranges).imp fun {r s} hle => ?_
  rcases Ordering.isLE_then_iff_or.mp hle with hlt | ⟨heq, hle⟩
  · exact .inl (Nat.compare_eq_lt.mp hlt)
  · exact .inr ⟨Nat.compare_eq_eq.mp heq, Nat.isLE_compare.mp hle⟩

/-- Of sorted items with one key the first is kept. -/
theorem exists_mem_destutter' {α κ : Type*} [DecidableEq κ] {R : α → α → Prop} (key : α → κ)
    {first : α} {items : List α} (hsorted : (first :: items).Pairwise R) {a : α}
    (ha : a ∈ first :: items) :
    ∃ b ∈ items.destutter' (fun a b => key a ≠ key b) first, key b = key a ∧ (b = a ∨ R b a) := by
  induction items generalizing first with
  | nil =>
    rw [mem_singleton.mp ha]
    exact ⟨first, by simp, rfl, .inl rfl⟩
  | cons second rest ih =>
    obtain ⟨hfirst, hrest⟩ := pairwise_cons.mp hsorted
    rw [destutter'_cons]
    split
    next hne =>
      rcases mem_cons.mp ha with rfl | hmem
      · exact ⟨a, mem_cons_self, rfl, .inl rfl⟩
      · obtain ⟨b, hb, hkey, hle⟩ := ih hrest hmem
        exact ⟨b, mem_cons_of_mem _ hb, hkey, hle⟩
    next heq =>
      have hsame : key first = key second := not_not.mp heq
      have hskip : (first :: rest).Pairwise R :=
        hsorted.sublist (Sublist.cons_cons first (sublist_cons_self second rest))
      rcases mem_cons.mp ha with rfl | hmem
      · exact ih hskip mem_cons_self
      · rcases mem_cons.mp hmem with rfl | hmem
        · exact ⟨first, mem_destutter' _ _ _, hsame, .inr (hfirst a mem_cons_self)⟩
        · exact ih hskip (mem_cons_of_mem _ hmem)

variable {r : WidthRange F}

lemma mem_of_mem_widthTable (h : r ∈ widthTable ranges) : r ∈ ranges :=
  mem_sortBy.mp ((destutter_sublist _ _).subset h)

/-- Sorted items whose neighbours have different keys have ever larger keys. -/
theorem pairwise_lt_of_isChain_ne {α : Type*} {key : α → ℕ} {items : List α}
    (hsorted : items.Pairwise fun a b => key a ≤ key b)
    (hchain : items.IsChain fun a b => key a ≠ key b) :
    items.Pairwise fun a b => key a < key b := by
  induction items with
  | nil => exact Pairwise.nil
  | cons first rest ih =>
    obtain ⟨hfirst, hrest⟩ := pairwise_cons.mp hsorted
    have hlater := ih hrest hchain.tail
    refine pairwise_cons.mpr ⟨fun a ha => ?_, hlater⟩
    cases rest with
    | nil => cases ha
    | cons second rest =>
      have hne : key first ≠ key second := (isChain_cons_cons.mp hchain).1
      have hsecond : key first < key second :=
        Nat.lt_of_le_of_ne (hfirst second mem_cons_self) hne
      rcases mem_cons.mp ha with rfl | ha
      · exact hsecond
      · exact hsecond.trans ((pairwise_cons.mp hlater).1 a ha)

lemma pairwise_widthTable (ranges : List (WidthRange F)) :
    (widthTable ranges).Pairwise fun r s => r.1 < s.1 := by
  apply pairwise_lt_of_isChain_ne
  · refine ((pairwise_sorted ranges).sublist (destutter_sublist _ _)).imp fun {r s} h => ?_
    rcases h with hlt | ⟨heq, -⟩
    · exact hlt.le
    · exact heq.le
  · exact isChain_destutter _ _

lemma nodup_widthTable (ranges : List (WidthRange F)) : ((widthTable ranges).map (·.1)).Nodup := by
  rw [Nodup, pairwise_map]
  exact (pairwise_widthTable ranges).imp fun h => Nat.ne_of_lt h

lemma exists_mem_widthTable (h : r ∈ ranges) :
    ∃ s ∈ widthTable ranges, s.1 = r.1 ∧ s.2.1 ≤ r.2.1 := by
  have hmem : r ∈ sortBy (fun r s => (compare r.1 s.1).then (compare r.2.1 s.2.1)) ranges :=
    mem_sortBy.mpr h
  have hsorted := pairwise_sorted ranges
  unfold widthTable
  cases hlist : sortBy (fun r s => (compare r.1 s.1).then (compare r.2.1 s.2.1)) ranges with
  | nil =>
    rw [hlist] at hmem
    cases hmem
  | cons first rest =>
    rw [hlist] at hmem hsorted
    obtain ⟨s, hs, hstart, hle⟩ := exists_mem_destutter' (fun r : WidthRange F => r.1) hsorted hmem
    refine ⟨s, hs, hstart, ?_⟩
    rcases hle with rfl | hlt | ⟨-, hle⟩
    · exact Nat.le_refl _
    · omega
    · exact hle

/-- A range that ends first of those read that start alike. -/
def Shortest (ranges : List (WidthRange F)) (r : WidthRange F) : Prop :=
  r ∈ ranges ∧ ∀ s ∈ ranges, s.1 = r.1 → r.2.1 ≤ s.2.1

lemma shortest_of_mem_widthTable (h : r ∈ widthTable ranges) : Shortest ranges r := by
  refine ⟨mem_of_mem_widthTable h, fun s hs hstart => ?_⟩
  obtain ⟨t, ht, hstart', hle⟩ := exists_mem_widthTable hs
  obtain rfl : t = r :=
    inj_on_of_nodup_map (nodup_widthTable ranges) ht h (hstart'.trans hstart)
  exact hle

lemma length_widthTable (ranges : List (WidthRange F)) :
    (widthTable ranges).length = (ranges.map (·.1)).dedup.length := by
  rw [← length_map (fun r : WidthRange F => r.1)]
  apply Perm.length_eq
  rw [perm_ext_iff_of_nodup (nodup_widthTable ranges) (nodup_dedup _)]
  intro first
  rw [mem_dedup, mem_map, mem_map]
  constructor
  · intro h
    obtain ⟨r, hr, hfirst⟩ := h
    exact ⟨r, mem_of_mem_widthTable hr, hfirst⟩
  · intro h
    obtain ⟨r, hr, hfirst⟩ := h
    obtain ⟨s, hs, hstart, -⟩ := exists_mem_widthTable hr
    exact ⟨s, hs, hstart.trans hfirst⟩

/-! ## §4 Looking up a code -/

section

variable (hsorted : table.Pairwise fun r s => r.1 < s.1)

include hsorted

lemma takeWhile_le_eq_filter (code : ℕ) :
    table.takeWhile (·.1 ≤ code) = table.filter (·.1 ≤ code) := by
  induction table with
  | nil => rfl
  | cons r rest ih =>
    obtain ⟨hr, hrest⟩ := pairwise_cons.mp hsorted
    by_cases hle : r.1 ≤ code
    · simp [hle, ih hrest]
    · have hnone : rest.filter (·.1 ≤ code) = [] := by
        rw [filter_eq_nil_iff]
        intro s hs
        have := hr s hs
        simp only [decide_eq_true_eq]
        omega
      simp [hle, hnone]

/-- The range a code is looked up in is the last that starts at or below it. -/
theorem getLast?_takeWhile_iff {code : ℕ} :
    (table.takeWhile (·.1 ≤ code)).getLast? = some r ↔
      r ∈ table ∧ r.1 ≤ code ∧ ∀ s ∈ table, s.1 ≤ code → s.1 ≤ r.1 := by
  rw [takeWhile_le_eq_filter hsorted]
  have hbelow : (table.filter (·.1 ≤ code)).Pairwise fun r s => r.1 < s.1 := hsorted.filter _
  have hmem : ∀ s, s ∈ table.filter (·.1 ≤ code) ↔ s ∈ table ∧ s.1 ≤ code := fun s => by
    simp [mem_filter]
  constructor
  · intro h
    obtain ⟨init, hinit⟩ := getLast?_eq_some_iff.mp h
    have hr := (hmem r).mp (by rw [hinit]; simp)
    refine ⟨hr.1, hr.2, fun s hs hle => ?_⟩
    have hlater := (hmem s).mpr ⟨hs, hle⟩
    rw [hinit, mem_append, mem_singleton] at hlater
    rcases hlater with hearlier | rfl
    · rw [hinit] at hbelow
      exact ((pairwise_append.mp hbelow).2.2 s hearlier r (mem_singleton_self r)).le
    · exact Nat.le_refl _
  · intro ⟨hr, hle, hlast⟩
    have hrmem := (hmem r).mpr ⟨hr, hle⟩
    obtain ⟨last, hlastEq⟩ : ∃ last, (table.filter (·.1 ≤ code)).getLast? = some last :=
      Option.isSome_iff_exists.mp (getLast?_isSome.mpr (ne_nil_of_mem hrmem))
    obtain ⟨init, hinit⟩ := getLast?_eq_some_iff.mp hlastEq
    have hl := (hmem last).mp (by rw [hinit]; simp)
    -- no range starts after this one, so the last is this one
    rw [hinit, mem_append, mem_singleton] at hrmem
    rcases hrmem with hearlier | rfl
    · rw [hinit] at hbelow
      have hlt := (pairwise_append.mp hbelow).2.2 r hearlier last (mem_singleton_self _)
      exact absurd (hlast last hl.1 hl.2) (Nat.not_le.mpr hlt)
    · exact hlastEq

lemma lookupRange_eq_some_iff {code : ℕ} {width : F} : lookupRange table code = some width ↔
      ∃ r ∈ table, r.1 ≤ code ∧ code ≤ r.2.1 ∧ r.2.2 = width ∧
        ∀ s ∈ table, s.1 ≤ code → s.1 ≤ r.1 := by
  unfold lookupRange
  rw [Option.bind_eq_some_iff]
  constructor
  · intro ⟨r, hlast, hcovers⟩
    obtain ⟨hr, hle, hlatest⟩ := (getLast?_takeWhile_iff hsorted).mp hlast
    obtain ⟨hin, hwidth⟩ := Option.ite_none_right_eq_some.mp hcovers
    exact ⟨r, hr, hle, hin.2, Option.some_inj.mp hwidth, hlatest⟩
  · intro ⟨r, hr, hle, hend, hwidth, hlatest⟩
    refine ⟨r, (getLast?_takeWhile_iff hsorted).mpr ⟨hr, hle, hlatest⟩, ?_⟩
    simp [hle, hend, hwidth]

end

/-! ## §5 Faithful tables -/

/-- A table of what an array declares that is bounded, tells when it lacks a range, and finds every
code that one of its ranges covers, with the width of such a range. -/
structure FaithfulWidths (declared table : List (WidthRange F)) (truncated : Bool) : Prop where
  bounded : table.length ≤ maxFontWidthEntries
  told : truncated = true ↔ ∃ r ∈ declared, r ∉ table
  found : ∀ code, (∃ width, lookupRange table code = some width) ↔
    ∃ r ∈ table, r.1 ≤ code ∧ code ≤ r.2.1
  width : ∀ code width, lookupRange table code = some width →
    ∃ r ∈ table, r.1 ≤ code ∧ code ≤ r.2.1 ∧ r.2.2 = width

/-- What the ranges of an array have to be like, those read and those left unread. -/
structure TidyWidths (kept : List (WidthRange F)) (unread : List (List (WidthRange F))) : Prop where
  bounded : (kept.map (·.1)).dedup.length ≤ maxFontWidthEntries
  told : unread ≠ [] ↔
    (∃ r ∈ kept, ∃ s ∈ kept, r.1 = s.1 ∧ r ≠ s) ∨ ∃ r ∈ unread.flatten, r ∉ kept
  /-- Where a range ends before one that starts earlier, another starts inside it or right
      after it. -/
  nested : ∀ r s, Shortest kept r → Shortest kept s → r.1 < s.1 → s.2.1 < r.2.1 →
    ∃ t ∈ kept, s.1 < t.1 ∧ t.1 ≤ s.2.1 + 1

/-- A table lacks a range of the array when two of those read start alike, or when one is left
unread that is not among those read. -/
theorem exists_not_mem_widthTable_iff (kept : List (WidthRange F))
    (unread : List (List (WidthRange F))) :
    (∃ r ∈ kept ++ unread.flatten, r ∉ widthTable kept) ↔
      (∃ r ∈ kept, ∃ s ∈ kept, r.1 = s.1 ∧ r ≠ s) ∨ ∃ r ∈ unread.flatten, r ∉ kept := by
  constructor
  · intro ⟨r, hr, hnot⟩
    by_cases hkept : r ∈ kept
    · obtain ⟨s, hs, hstart, -⟩ := exists_mem_widthTable hkept
      refine .inl ⟨r, hkept, s, mem_of_mem_widthTable hs, hstart.symm, ?_⟩
      intro heq
      exact hnot (heq ▸ hs)
    · refine .inr ⟨r, ?_, hkept⟩
      exact (mem_append.mp hr).resolve_left hkept
  · intro h
    rcases h with ⟨r, hr, s, hs, hstart, hne⟩ | ⟨r, hr, hnot⟩
    · -- a table has one range for a first code, so it lacks one of the two
      by_cases hrt : r ∈ widthTable kept
      · refine ⟨s, mem_append_left _ hs, fun hst => hne ?_⟩
        exact inj_on_of_nodup_map (nodup_widthTable kept) hrt hst hstart
      · exact ⟨r, mem_append_left _ hr, hrt⟩
    · exact ⟨r, mem_append_right _ hr, fun hrt => hnot (mem_of_mem_widthTable hrt)⟩

/-- Every covered code is found when no range hides the end of an earlier one. -/
theorem found_of_nested {kept : List (WidthRange F)}
    (hnested : ∀ r s, Shortest kept r → Shortest kept s → r.1 < s.1 → s.2.1 < r.2.1 →
      ∃ t ∈ kept, s.1 < t.1 ∧ t.1 ≤ s.2.1 + 1)
    {code : ℕ} (hr : r ∈ widthTable kept) (hle : r.1 ≤ code) (hend : code ≤ r.2.1) :
    ∃ width, lookupRange (widthTable kept) code = some width := by
  obtain ⟨last, hlast⟩ : ∃ last, ((widthTable kept).takeWhile (·.1 ≤ code)).getLast? = some last :=
    by
      rw [takeWhile_le_eq_filter (pairwise_widthTable kept)]
      refine Option.isSome_iff_exists.mp (getLast?_isSome.mpr (ne_nil_of_mem (a := r) ?_))
      simp [mem_filter, hr, hle]
  obtain ⟨hmem, hstart, hlatest⟩ := (getLast?_takeWhile_iff (pairwise_widthTable kept)).mp hlast
  refine ⟨last.2.2, (lookupRange_eq_some_iff (pairwise_widthTable kept)).mpr
    ⟨last, hmem, hstart, ?_, rfl, hlatest⟩⟩
  by_contra hpast
  have hlater : r.1 < last.1 := by
    refine Nat.lt_of_le_of_ne (hlatest r hr hle) fun heq => ?_
    obtain rfl : r = last := inj_on_of_nodup_map (nodup_widthTable kept) hr hmem heq
    omega
  -- another range starts after the latest one that starts at or below the code
  obtain ⟨t, ht, hafter, hbefore⟩ := hnested r last (shortest_of_mem_widthTable hr)
    (shortest_of_mem_widthTable hmem) hlater (by omega)
  obtain ⟨u, hu, hstart', -⟩ := exists_mem_widthTable ht
  have := hlatest u hu (by omega)
  omega

lemma Shortest.exists_mem (h : Shortest ranges r) :
    ∃ s ∈ widthTable ranges, s.1 = r.1 ∧ s.2.1 = r.2.1 := by
  obtain ⟨s, hs, hstart, hle⟩ := exists_mem_widthTable h.1
  exact ⟨s, hs, hstart, Nat.le_antisymm hle (h.2 s (mem_of_mem_widthTable hs) hstart)⟩

/-- No range hides the end of an earlier one when every covered code is found. -/
theorem nested_of_found {kept : List (WidthRange F)} (hkept : ∀ r ∈ kept, r.1 ≤ r.2.1)
    (hfound : ∀ code, (∃ r ∈ widthTable kept, r.1 ≤ code ∧ code ≤ r.2.1) →
      ∃ width, lookupRange (widthTable kept) code = some width)
    {s : WidthRange F} (hr : Shortest kept r) (hs : Shortest kept s) (hstart : r.1 < s.1)
    (hend : s.2.1 < r.2.1) : ∃ t ∈ kept, s.1 < t.1 ∧ t.1 ≤ s.2.1 + 1 := by
  obtain ⟨r', hr', hr1, hr2⟩ := hr.exists_mem
  obtain ⟨s', hs', hs1, hs2⟩ := hs.exists_mem
  have hsle := hkept s hs.1
  -- the code right after the range that ends first
  obtain ⟨width, hlookup⟩ := hfound (s.2.1 + 1) ⟨r', hr', by omega, by omega⟩
  obtain ⟨t, ht, hle, hcovers, -, hlatest⟩ :=
    (lookupRange_eq_some_iff (pairwise_widthTable kept)).mp hlookup
  refine ⟨t, mem_of_mem_widthTable ht, ?_, hle⟩
  refine Nat.lt_of_le_of_ne (hs1 ▸ hlatest s' hs' (by omega)) fun heq => ?_
  obtain rfl : s' = t :=
    inj_on_of_nodup_map (nodup_widthTable kept) hs' ht (hs1.trans heq)
  omega

/-! ## §6 The tables of composite fonts -/

section

variable [Float64 F]

omit [Float64 F] in
lemma readEntries_flatten (entries : List (List (WidthRange F))) (ranges : List (WidthRange F)) :
    (readEntries entries ranges).1 ++ (readEntries entries ranges).2.flatten =
      ranges ++ entries.flatten := by
  induction entries generalizing ranges with
  | nil => rfl
  | cons entry rest ih =>
    unfold readEntries
    split
    · rfl
    · simp [ih]

/-- A declared range ends no earlier than it starts. -/
theorem le_of_mem_widthEntries {defaultWidth : F} {entries : List (Object F)}
    {entry : List (WidthRange F)} (hentry : entry ∈ widthEntries defaultWidth entries)
    (hr : r ∈ entry) : r.1 ≤ r.2.1 := by
  fun_induction widthEntries defaultWidth entries with
  | case1 => cases hentry
  | case2 object rest hnone ih =>
    rcases mem_cons.mp hentry with rfl | hentry
    · cases hr
    · exact ih hentry
  | case3 object first hfirst widths rest codes ih =>
    rcases mem_cons.mp hentry with rfl | hentry
    · obtain ⟨code, -, rfl⟩ := mem_map.mp hr
      exact Nat.le_refl _
    · exact ih hentry
  | case4 object first hfirst second rest harray last width ih =>
    rcases mem_cons.mp hentry with rfl | hentry
    · rw [mem_singleton.mp hr]
      exact Nat.le_max_right _ _
    · exact ih hentry
  | case5 object first hfirst =>
    rw [mem_singleton.mp hentry] at hr
    cases hr

variable (document : Document F) (descendant : Dictionary F)

/-- The width of a code that a font gives none. -/
def fontDefaultWidth : F :=
  ((document.getDeref descendant (ascii "DW")).bind Object.number).getD (lit 1000)

/-- The width array of a composite font. -/
def widthArray : List (Object F) :=
  ((document.getDeref descendant (ascii "W")).bind Object.asArray).getD []

/-- The ranges that a composite font declares, entry by entry. -/
def declaredRanges : List (List (WidthRange F)) :=
  widthEntries (fontDefaultWidth document descendant) (widthArray document descendant)

lemma compositeWidths_eq :
    compositeWidths document descendant =
      (.composite (widthTable (readEntries (declaredRanges document descendant) []).1)
          (fontDefaultWidth document descendant),
        !(readEntries (declaredRanges document descendant) []).2.isEmpty) := by
  unfold compositeWidths declaredRanges widthArray
  cases (document.getDeref descendant (ascii "W")).bind Object.asArray with
  | none => simp [widthEntries, readEntries, fontDefaultWidth, widthTable]
  | some entries => simp [collectRanges_eq, fontDefaultWidth, widthTable]

/-- The width table of a composite font is faithful just when its width array is tidy. -/
theorem faithfulWidths_iff :
    (∃ table defaultWidth truncated,
      compositeWidths document descendant = (.composite table defaultWidth, truncated) ∧
      FaithfulWidths (declaredRanges document descendant).flatten table truncated) ↔
    TidyWidths (readEntries (declaredRanges document descendant) []).1
      (readEntries (declaredRanges document descendant) []).2 := by
  have hkept : ∀ r ∈ (readEntries (declaredRanges document descendant) []).1, r.1 ≤ r.2.1 := by
    intro r hr
    have hmem : r ∈ (declaredRanges document descendant).flatten := by
      have := readEntries_flatten (declaredRanges document descendant) []
      rw [nil_append] at this
      rw [← this]
      exact mem_append_left _ hr
    obtain ⟨entry, hentry, hr⟩ := mem_flatten.mp hmem
    exact le_of_mem_widthEntries hentry hr
  have hflat := readEntries_flatten (declaredRanges document descendant) []
  rw [nil_append] at hflat
  rw [compositeWidths_eq, ← hflat]
  generalize (readEntries (declaredRanges document descendant) []).1 = kept at hkept ⊢
  generalize (readEntries (declaredRanges document descendant) []).2 = unread
  have hcut : (!unread.isEmpty) = true ↔ unread ≠ [] := by simp
  constructor
  · intro ⟨table, defaultWidth, truncated, heq, hfaithful⟩
    obtain ⟨hwidths, rfl⟩ := Prod.mk.inj heq
    obtain ⟨rfl, -⟩ := Widths.composite.inj hwidths
    refine ⟨length_widthTable kept ▸ hfaithful.bounded, ?_, fun r s hr hs => ?_⟩
    · rw [← hcut, hfaithful.told, exists_not_mem_widthTable_iff]
    · exact nested_of_found hkept (fun code => (hfaithful.found code).mpr) hr hs
  · intro htidy
    refine ⟨_, _, _, rfl, (length_widthTable kept).symm ▸ htidy.bounded, ?_, fun code => ?_, ?_⟩
    · rw [hcut, htidy.told, exists_not_mem_widthTable_iff]
    · constructor
      · intro ⟨width, h⟩
        obtain ⟨r, hr, hle, hend, -⟩ :=
          (lookupRange_eq_some_iff (pairwise_widthTable kept)).mp h
        exact ⟨r, hr, hle, hend⟩
      · intro ⟨r, hr, hle, hend⟩
        exact found_of_nested htidy.nested hr hle hend
    · intro code width h
      obtain ⟨r, hr, hle, hend, hwidth, -⟩ :=
        (lookupRange_eq_some_iff (pairwise_widthTable kept)).mp h
      exact ⟨r, hr, hle, hend, hwidth⟩

end

/-! ## §7 A range inside another -/

/-- Whole numbers, on which the floating-point operations are exact. -/
@[reducible]
def wholeNumbers : Float64 ℤ where
  ofInt := id
  toInt := id
  isFinite _ := true
  le a b := a ≤ b
  min a b := if a ≤ b then a else b
  max a b := if a ≤ b then b else a
  abs a := a.natAbs

/-- A document whose objects are all direct. -/
def directDocument : Document ℤ where
  dereference := some

/-- The width array `[0 10 500 5 6 400]`. -/
def nestedFont : Dictionary ℤ :=
  [(ascii "W", .array ([0, 10, 500, 5, 6, 400].map .integer))]

section Whole

attribute [local instance] wholeNumbers

lemma nestedFont_declared :
    declaredRanges directDocument nestedFont = [[(0, 10, 500)], [(5, 6, 400)]] := by
  have hcode : ∀ n : ℕ, n ≤ maxU32 →
      (Object.integer (n : ℤ) : Object ℤ).number.bind finiteCode = some n := by
    intro n hn
    show finiteCode (n : ℤ) = some n
    have hbounds : (n : ℤ) ≤ maxU32 := by exact_mod_cast hn
    simp [finiteCode, Float64.le, Float64.isFinite, Float64.toInt, lit, Float64.ofInt, hbounds]
  have harray : widthArray directDocument nestedFont =
      [.integer (0 : ℕ), .integer (10 : ℕ), .integer 500,
        .integer (5 : ℕ), .integer (6 : ℕ), .integer 400] := rfl
  unfold declaredRanges
  rw [harray, widthEntries_range (hcode 0 (by decide)) (by simp), hcode 10 (by decide)]
  simp only [drop_one, tail_cons]
  rw [widthEntries_range (hcode 5 (by decide)) (by simp), hcode 6 (by decide)]
  simp only [drop_one, tail_cons]
  rw [widthEntries.eq_def]
  rfl

/-- The second range hides what the first one covers after it. -/
theorem nestedFont_not_found :
    compositeWidths directDocument nestedFont =
      (.composite [(0, 10, 500), (5, 6, 400)] 1000, false) ∧
    lookupRange [(0, 10, (500 : ℤ)), (5, 6, 400)] 8 = none ∧
    ¬ ∃ table defaultWidth truncated,
      compositeWidths directDocument nestedFont = (.composite table defaultWidth, truncated) ∧
      FaithfulWidths (declaredRanges directDocument nestedFont).flatten table truncated := by
  have htable : compositeWidths directDocument nestedFont =
      (.composite [(0, 10, 500), (5, 6, 400)] 1000, false) := by
    rw [compositeWidths_eq, nestedFont_declared]
    rfl
  have hlookup : lookupRange [(0, 10, (500 : ℤ)), (5, 6, 400)] 8 = none := by decide
  refine ⟨htable, hlookup, ?_⟩
  intro ⟨table, defaultWidth, truncated, heq, hfaithful⟩
  rw [htable] at heq
  obtain ⟨hwidths, rfl⟩ := Prod.mk.inj heq
  obtain ⟨rfl, -⟩ := Widths.composite.inj hwidths
  obtain ⟨width, hfound⟩ := (hfaithful.found 8).mpr ⟨(0, 10, 500), by simp, by simp, by simp⟩
  rw [hlookup] at hfound
  cases hfound

end Whole

end Kwiry.Pdf
