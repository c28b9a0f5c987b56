import Kwiry.Foundations.Rotation
import Kwiry.Reconcile

/-!
# Rotation of the Audit within One Vault

A pass over one vault selects from its candidates with a fresh budget, from the cursor the pass
before returned. The selection is a walk around the candidates, and the cursor it returns stands
behind the last one examined.

As long as the window of candidates ahead of the cursor fits the byte limit in every pass, the
rotation reaches every candidate. A pass in which the bytes end before the sources do examines
every candidate, so its cursor comes back to where the pass began, and the passes after it
select the same candidates again.
-/

namespace Kwiry

open Foundations List

/-! ## §1 A selection is a walk -/

namespace AuditBudget

variable {candidates : List (SourceKey × ℕ)}

variable (candidates) in
lemma selectLoop_eq_walk (start left : ℕ) (selection : AuditSelection)
    (hleft : selection.examined + left = candidates.length) :
    let walked := walk selection.budget.remainingSources selection.budget.remainingBytes
      ((candidates.rotate start).drop selection.examined)
    let final := selectLoop candidates start left selection
    final.examined = selection.examined + walked.examined ∧
      ∀ key, key ∈ final.selected ↔ key ∈ selection.selected ∨ key ∈ walked.taken.map Prod.fst := by
  have hlength := length_rotate candidates start
  induction left generalizing selection with
  | zero =>
    have hdone : (candidates.rotate start).drop selection.examined = [] :=
      drop_eq_nil_of_le (by omega)
    simp [selectLoop, hdone]
  | succ left ih =>
    rw [selectLoop]
    by_cases hzero : selection.budget.remainingSources = 0
    · simp [hzero]
    rw [if_neg hzero]
    cases hahead : (candidates.rotate start).drop selection.examined with
    | nil =>
      have hdone := drop_eq_nil_iff.mp hahead
      omega
    | cons item rest =>
      have hrest : (candidates.rotate start).drop (selection.examined + 1) = rest := by
        rw [← tail_drop, hahead, tail_cons]
      have hentry : candidates[(start + selection.examined) % candidates.length]? = some item := by
        rw [Nat.add_comm, ← getElem?_rotate (by omega), ← head?_drop, hahead, head?_cons]
      obtain ⟨key, byteLength⟩ := item
      obtain ⟨⟨cursor, sources, bytes⟩, examined, selected⟩ := selection
      obtain ⟨sources, rfl⟩ := Nat.exists_eq_succ_of_ne_zero hzero
      simp only at hleft hrest hentry ⊢
      simp only [hentry]
      by_cases hheavy : bytes < byteLength
      · -- passed over: the budget and the selected keys stay
        obtain ⟨hexamined, hselected⟩ := ih ⟨⟨cursor, sources + 1, bytes⟩, examined + 1, selected⟩
          (by simp only; omega)
        simp only [hrest] at hexamined hselected
        rw [if_pos hheavy, walk_of_lt hheavy]
        exact ⟨by simp only [Nat.succ_eq_add_one, hexamined]; omega, hselected⟩
      · obtain ⟨hexamined, hselected⟩ := ih ⟨⟨cursor, sources, bytes - byteLength⟩, examined + 1,
          selected.insert key⟩ (by simp only; omega)
        simp only [hrest] at hexamined hselected
        rw [if_neg hheavy, walk_of_le (Nat.not_lt.mp hheavy)]
        refine ⟨by simp only [Nat.succ_eq_add_one, Nat.add_sub_cancel, hexamined]; omega,
          fun other => ?_⟩
        simp only [Nat.succ_eq_add_one, Nat.add_sub_cancel, hselected, Std.ExtTreeSet.mem_insert,
          Std.LawfulEqCmp.compare_eq_iff_eq, map_cons, mem_cons]
        tauto

/-- A selection is a walk around the candidates from the cursor, and its cursor stands behind what
the walk examined. -/
theorem select_eq_walk (hne : candidates ≠ []) (budget : AuditBudget)
    (hsources : 0 < budget.remainingSources) :
    let walked := walk budget.remainingSources budget.remainingBytes
      (candidates.rotate budget.cursor)
    (budget.select candidates).1.cursor =
        (budget.cursor % candidates.length + walked.examined) % candidates.length ∧
      ∀ key, key ∈ (budget.select candidates).2 ↔ key ∈ walked.taken.map Prod.fst := by
  have hskip : ¬ (candidates.isEmpty || budget.remainingSources = 0) = true := by
    simp [hne, hsources.ne']
  obtain ⟨hexamined, hselected⟩ := selectLoop_eq_walk candidates
    (budget.cursor % candidates.length) candidates.length ⟨budget, 0, ∅⟩ (Nat.zero_add _)
  simp only [drop_zero, rotate_mod, Nat.zero_add] at hexamined hselected
  simp only [select, if_neg hskip]
  exact ⟨by rw [hexamined], fun key => by simp [hselected]⟩

end AuditBudget

/-! ## §2 Passes -/

section

variable (sourceLimit byteLimit : ℕ) (candidates : List (SourceKey × ℕ))

/-- The selection of a pass with a fresh budget: the cursor it returns, and the keys it takes. -/
def auditPass (cursor : ℕ) : ℕ × Std.ExtTreeSet SourceKey :=
  let (budget, selected) := (AuditBudget.mk cursor sourceLimit byteLimit).select candidates
  (budget.cursor, selected)

/-- The cursor a pass finds: the one the pass before it returned. -/
def auditCursorAt (cursor : ℕ) : ℕ → ℕ
  | 0 => cursor
  | pass + 1 => (auditPass sourceLimit byteLimit candidates (auditCursorAt cursor pass)).1

/-- Every candidate is selected by some pass. -/
def AuditRotates (cursor : ℕ) : Prop :=
  ∀ entry ∈ candidates, ∃ pass, entry.1 ∈ (auditPass sourceLimit byteLimit candidates
    (auditCursorAt sourceLimit byteLimit candidates cursor pass)).2

/-- The candidates a pass may take from a cursor fit its bytes together. -/
def WindowFits (cursor : ℕ) : Prop :=
  weight ((candidates.rotate cursor).take sourceLimit) ≤ byteLimit

variable {sourceLimit byteLimit candidates}

lemma auditPass_eq_walk (hne : candidates ≠ []) (hsources : 0 < sourceLimit) (cursor : ℕ) :
    let walked := walk sourceLimit byteLimit (candidates.rotate cursor)
    (auditPass sourceLimit byteLimit candidates cursor).1 =
        (cursor % candidates.length + walked.examined) % candidates.length ∧
      ∀ key, key ∈ (auditPass sourceLimit byteLimit candidates cursor).2 ↔
        key ∈ walked.taken.map Prod.fst :=
  AuditBudget.select_eq_walk hne ⟨cursor, sourceLimit, byteLimit⟩ hsources

lemma successive_auditCursorAt (hsources : 0 < sourceLimit) (cursor : ℕ) :
    Successive sourceLimit byteLimit candidates
      (auditCursorAt sourceLimit byteLimit candidates cursor) := by
  intro pass
  rcases eq_or_ne candidates [] with rfl | hne
  · simp
  · rw [auditCursorAt, (auditPass_eq_walk hne hsources _).1, rotate_mod,
      ← rotate_rotate, rotate_mod, rotate_rotate]

/-- Where the source limit reaches all candidates, the rotation selects them all only if they fit
the byte limit together. -/
theorem weight_le_of_rotates (hsources : candidates.length ≤ sourceLimit)
    (hkeys : (candidates.map Prod.fst).Nodup) {cursor : ℕ}
    (h : AuditRotates sourceLimit byteLimit candidates cursor) : weight candidates ≤ byteLimit := by
  rcases eq_or_ne candidates [] with rfl | hne
  · exact Nat.zero_le _
  have hpos : 0 < sourceLimit := (length_pos_of_ne_nil hne).trans_le hsources
  set ring := candidates.rotate cursor with hring
  set taken := (walk sourceLimit byteLimit ring).taken with htaken
  -- every pass is the same walk, so the keys it takes are all keys
  have hall : ∀ key ∈ ring.map Prod.fst, key ∈ taken.map Prod.fst := by
    intro key hkey
    obtain ⟨entry, hentry, rfl⟩ := mem_map.mp hkey
    obtain ⟨pass, hpass⟩ := h entry (mem_rotate.mp hentry)
    rw [(auditPass_eq_walk hne hpos _).2,
      rotate_cursor_of_length_le (successive_auditCursorAt hpos cursor) hsources pass] at hpass
    exact hpass
  have hnodup : (ring.map Prod.fst).Nodup := by
    rw [hring, map_rotate, nodup_rotate]
    exact hkeys
  have hlength := (subperm_of_subset hnodup hall).length_le
  rw [length_map, length_map] at hlength
  have hwhole : taken = ring := taken_sublist.eq_of_length_le hlength
  calc weight candidates = weight ring := weight_perm (rotate_perm candidates cursor).symm
    _ = weight taken := by rw [hwhole]
    _ ≤ byteLimit := weight_taken_le

/-- The rotation selects every candidate if the window ahead of the cursor fits the byte limit in
every pass; where the source limit reaches all candidates, this is exactly when it does. -/
theorem auditRotates_of_fits (hsources : 0 < sourceLimit)
    (hkeys : (candidates.map Prod.fst).Nodup) (cursor : ℕ) :
    ((∀ pass, WindowFits sourceLimit byteLimit candidates
        (auditCursorAt sourceLimit byteLimit candidates cursor pass)) →
      AuditRotates sourceLimit byteLimit candidates cursor) ∧
    (candidates.length ≤ sourceLimit →
      (AuditRotates sourceLimit byteLimit candidates cursor ↔ weight candidates ≤ byteLimit)) := by
  have hfits : (∀ pass, WindowFits sourceLimit byteLimit candidates
      (auditCursorAt sourceLimit byteLimit candidates cursor pass)) →
      AuditRotates sourceLimit byteLimit candidates cursor := by
    intro hwindows entry hentry
    obtain ⟨pass, htaken⟩ := exists_taken_of_fits hsources
      (successive_auditCursorAt hsources cursor) hwindows hentry
    refine ⟨pass, ((auditPass_eq_walk (ne_nil_of_mem hentry) hsources _).2 _).mpr ?_⟩
    exact mem_map_of_mem htaken
  refine ⟨hfits, fun hreaches => ⟨weight_le_of_rotates hreaches hkeys, fun hweight => ?_⟩⟩
  refine hfits fun pass => ?_
  -- a window of all candidates weighs what they weigh together
  rw [WindowFits, take_of_length_le (by rw [length_rotate]; exact hreaches),
    weight_perm (rotate_perm candidates _)]
  exact hweight

/-- Three sources audited two at a time, all within the bytes of a pass. -/
theorem auditRotates_of_fits_three :
    AuditRotates 2 20 [([1], 6), ([2], 6), ([3], 4)] 0 := by
  refine (auditRotates_of_fits (by decide) (by decide) 0).1 fun pass => ?_
  have hweight : weight [(([1] : SourceKey), 6), ([2], 6), ([3], 4)] ≤ 20 := by decide
  refine (weight_take_le _ _).trans ?_
  rw [weight_perm (rotate_perm _ _)]
  exact hweight

/-- Three sources audited two at a time under ten bytes: the second is passed over in the first
pass, the third taken in its place, and the cursor comes back to the first. -/
theorem not_auditRotates_three : ¬ AuditRotates 2 10 [([1], 6), ([2], 6), ([3], 4)] 0 := by
  have hcursor : ∀ pass, auditCursorAt 2 10 [([1], 6), ([2], 6), ([3], 4)] 0 pass = 0 := by
    intro pass
    induction pass with
    | zero => rfl
    | succ pass ih =>
      rw [auditCursorAt, ih, (auditPass_eq_walk (by simp) (by decide) 0).1]
      rfl
  intro h
  obtain ⟨pass, hpass⟩ := h ([2], 6) (by simp)
  rw [hcursor, (auditPass_eq_walk (by simp) (by decide) 0).2] at hpass
  exact absurd hpass (by decide)

end

end Kwiry
