import Mathlib.Data.List.Basic

/-!
# Staged Publication

Objects that are opened under a name, changed and checked while they are staged, and then either
dropped or published in place of the object that is served. A name is used once, for a new object
or for the one that is served.
-/

namespace Kwiry.Foundations

open List

/-- What happens to an object, given by its handle. -/
inductive Move (I : Type*) where
  | opened (handle : ℕ) (name : I)
  | read (handle : ℕ)
  | changed (handle : ℕ)
  | checked (handle : ℕ)
  | dropped (handle : ℕ)
  | published (handle : ℕ)
  | renamed (handle : ℕ) (name : I)

variable {I : Type*}

/-- An object that is only looked at, changed or checked stays where it is. -/
def Move.Touches (handle : ℕ) : Move I → Prop
  | .read h | .changed h | .checked h => h = handle
  | .opened .. | .dropped _ | .published _ | .renamed .. => False

structure Publication (I : Type*) where
  (active staging : Option (ℕ × I))
  checked : Bool
  used : List I
  next : ℕ

namespace Publication

def empty : Publication I :=
  ⟨none, none, false, [], 0⟩

variable [DecidableEq I]

section

variable (s : Publication I)

/-- The handle of the staged object. -/
def stagedHandle : Option ℕ :=
  s.staging.map Prod.fst

def activeHandle : Option ℕ :=
  s.active.map Prod.fst

def step : Move I → Option (Publication I)
  | .opened handle name =>
    if s.staging.isNone ∧ handle = s.next ∧ name ∉ s.used then
      some { s with
        staging := some (handle, name), checked := false
        used := name :: s.used, next := s.next + 1 }
    else none
  | .read handle =>
    if s.stagedHandle = some handle ∨ s.activeHandle = some handle then some s else none
  | .changed handle =>
    if s.stagedHandle = some handle then some { s with checked := false }
    else if s.activeHandle = some handle then some s
    else none
  | .checked handle =>
    if s.stagedHandle = some handle then some { s with checked := true }
    else if s.activeHandle = some handle then some s
    else none
  | .dropped handle =>
    if s.stagedHandle = some handle then some { s with staging := none, checked := false } else none
  | .published handle =>
    if s.stagedHandle = some handle ∧ s.checked = true then
      some { s with active := s.staging, staging := none, checked := false }
    else none
  | .renamed handle name =>
    if s.activeHandle = some handle ∧ s.staging.isNone ∧ name ∉ s.used then
      some { s with active := some (handle, name), used := name :: s.used }
    else none

/-- A list of moves, when every one of them is allowed. -/
def run (moves : List (Move I)) : Option (Publication I) :=
  moves.foldlM step s

@[simp] lemma run_nil : s.run [] = some s := rfl

@[simp] lemma run_cons (m : Move I) (moves : List (Move I)) :
    s.run (m :: moves) = (s.step m).bind fun s => s.run moves := rfl

end

lemma run_append {s s' : Publication I} {moves : List (Move I)} (h : s.run moves = some s')
    (more : List (Move I)) : s.run (moves ++ more) = s'.run more := by
  rw [run, foldlM_append]
  change (s.run moves).bind _ = _
  rw [h]
  rfl

/-- Touching objects changes no more than whether the staged one is checked. -/
theorem run_touches {s : Publication I} {moves : List (Move I)}
    (h : ∀ m ∈ moves, ∃ handle, (s.stagedHandle = some handle ∨ s.activeHandle = some handle) ∧
      m.Touches handle) : ∃ checked, s.run moves = some { s with checked := checked } := by
  induction moves generalizing s with
  | nil => exact ⟨s.checked, rfl⟩
  | cons m rest ih =>
    have hstep : ∃ checked, s.step m = some { s with checked := checked } := by
      obtain ⟨handle, hheld, htouch⟩ := h m mem_cons_self
      cases m with
      | read h' =>
        obtain rfl : h' = handle := htouch
        exact ⟨s.checked, if_pos hheld⟩
      | changed h' =>
        obtain rfl : h' = handle := htouch
        by_cases hs : s.stagedHandle = some h'
        · exact ⟨false, if_pos hs⟩
        · exact ⟨s.checked, by rw [step, if_neg hs, if_pos (hheld.resolve_left hs)]⟩
      | checked h' =>
        obtain rfl : h' = handle := htouch
        by_cases hs : s.stagedHandle = some h'
        · exact ⟨true, if_pos hs⟩
        · exact ⟨s.checked, by rw [step, if_neg hs, if_pos (hheld.resolve_left hs)]⟩
      | opened | dropped | published | renamed => exact htouch.elim
    obtain ⟨checked, hstep⟩ := hstep
    have hrest : ∀ m ∈ rest, ∃ handle,
        (({ s with checked := checked } : Publication I).stagedHandle = some handle ∨
          ({ s with checked := checked } : Publication I).activeHandle = some handle) ∧
        m.Touches handle := fun m hm => h m (mem_cons_of_mem _ hm)
    obtain ⟨final, hfinal⟩ := ih hrest
    exact ⟨final, by rw [run_cons, hstep]; exact hfinal⟩

end Publication

/-! ## §1 Histories -/

/-- A history gives an object a name. -/
def Named (moves : List (Move I)) (handle : ℕ) (name : I) : Prop :=
  .opened handle name ∈ moves ∨ .renamed handle name ∈ moves

/-- A history checks an object and does not change it afterwards. -/
def CheckedSinceChange (moves : List (Move I)) (handle : ℕ) : Prop :=
  ∃ before after, moves = before ++ .checked handle :: after ∧ .changed handle ∉ after

/-- A history publishes an object at a point where it was checked. -/
def PublishedChecked (moves : List (Move I)) (handle : ℕ) : Prop :=
  ∃ before after, moves = before ++ .published handle :: after ∧
    CheckedSinceChange before handle

variable {m : Move I} {handle : ℕ}

lemma named_concat {moves : List (Move I)} {name : I} :
    Named (moves ++ [m]) handle name ↔
      Named moves handle name ∨ m = .opened handle name ∨ m = .renamed handle name := by
  simp only [Named, mem_append, mem_singleton, eq_comm (b := m)]
  tauto

lemma CheckedSinceChange.concat {moves : List (Move I)} (h : CheckedSinceChange moves handle)
    (hm : m ≠ .changed handle) : CheckedSinceChange (moves ++ [m]) handle := by
  obtain ⟨before, after, rfl, hafter⟩ := h
  exact ⟨before, after ++ [m], by simp, by simp [hafter, hm.symm]⟩

lemma PublishedChecked.concat {moves : List (Move I)} (h : PublishedChecked moves handle)
    (m : Move I) : PublishedChecked (moves ++ [m]) handle := by
  obtain ⟨before, after, rfl, hchecked⟩ := h
  exact ⟨before, after ++ [m], by simp, hchecked⟩

/-- What a history says about the state it leads to. -/
structure Recorded (s : Publication I) (moves : List (Move I)) : Prop where
  used : ∀ handle name, Named moves handle name → name ∈ s.used
  handle_lt : ∀ handle name, Named moves handle name → handle < s.next
  unique : ∀ handle handle' name, Named moves handle name → Named moves handle' name →
    handle = handle'
  staging : ∀ handle name, s.staging = some (handle, name) → Named moves handle name
  active : ∀ handle name, s.active = some (handle, name) → Named moves handle name
  checked : ∀ handle, s.checked = true → s.staging.map Prod.fst = some handle →
    CheckedSinceChange moves handle
  published : ∀ handle, s.active.map Prod.fst = some handle → PublishedChecked moves handle

lemma Recorded.empty : Recorded (Publication.empty : Publication I) [] where
  used _ _ h := by simp [Named] at h
  handle_lt _ _ h := by simp [Named] at h
  unique _ _ _ h := by simp [Named] at h
  staging _ _ h := by simp [Publication.empty] at h
  active _ _ h := by simp [Publication.empty] at h
  checked _ h := by simp [Publication.empty] at h
  published _ h := by simp [Publication.empty] at h

/-- A name that no object had goes to one object. -/
theorem Recorded.name {s : Publication I} {moves : List (Move I)} (h : Recorded s moves) {name : I}
    (hm : m = .opened handle name ∨ m = .renamed handle name) (hfresh : name ∉ s.used) :
    ∀ handle₁ handle₂ name', Named (moves ++ [m]) handle₁ name' →
      Named (moves ++ [m]) handle₂ name' → handle₁ = handle₂ := by
  have hnew : ∀ {h' : ℕ} {n : I}, m = .opened h' n ∨ m = .renamed h' n →
      h' = handle ∧ n = name := by
    rintro h' n hn
    rcases hm with rfl | rfl <;> simpa [eq_comm] using hn
  intro handle₁ handle₂ name' h₁ h₂
  rcases named_concat.mp h₁ with hold₁ | hnew₁ <;> rcases named_concat.mp h₂ with hold₂ | hnew₂
  · exact h.unique _ _ _ hold₁ hold₂
  · exact absurd ((hnew hnew₂).2 ▸ h.used _ _ hold₁) hfresh
  · exact absurd ((hnew hnew₁).2 ▸ h.used _ _ hold₂) hfresh
  · rw [(hnew hnew₁).1, (hnew hnew₂).1]

/-- A move that names nothing keeps what is known of names. -/
theorem Recorded.of_unnamed {s s' : Publication I} {moves : List (Move I)} (h : Recorded s moves)
    (hopened : ∀ handle name, m ≠ .opened handle name)
    (hrenamed : ∀ handle name, m ≠ .renamed handle name) (hused : s'.used = s.used)
    (hnext : s'.next = s.next) (hstaging : ∀ x, s'.staging = some x → s.staging = some x)
    (hactive : ∀ x, s'.active = some x → s.active = some x ∨ s.staging = some x)
    (hchecked : ∀ handle, s'.checked = true → s'.staging.map Prod.fst = some handle →
      CheckedSinceChange (moves ++ [m]) handle)
    (hpublished : ∀ handle, s'.active.map Prod.fst = some handle →
      s.active.map Prod.fst = some handle ∨ PublishedChecked (moves ++ [m]) handle) :
    Recorded s' (moves ++ [m]) := by
  have hnamed : ∀ {handle name}, Named (moves ++ [m]) handle name ↔ Named moves handle name := by
    intro handle name
    rw [named_concat]
    simp [hopened handle name, hrenamed handle name]
  refine ⟨?_, ?_, ?_, ?_, ?_, hchecked, fun handle ha =>
    (hpublished handle ha).elim (fun hold => (h.published _ hold).concat _) id⟩
  · exact fun handle name hn => hused ▸ h.used _ _ (hnamed.mp hn)
  · exact fun handle name hn => hnext ▸ h.handle_lt _ _ (hnamed.mp hn)
  · exact fun _ _ _ h₁ h₂ => h.unique _ _ _ (hnamed.mp h₁) (hnamed.mp h₂)
  · exact fun _ _ hs => hnamed.mpr (h.staging _ _ (hstaging _ hs))
  · intro handle name ha
    rcases hactive _ ha with ha | hs
    · exact hnamed.mpr (h.active _ _ ha)
    · exact hnamed.mpr (h.staging _ _ hs)

section Steps

variable [DecidableEq I] {s s' : Publication I} {moves : List (Move I)}

theorem Recorded.step (h : Recorded s moves) (hstep : s.step m = some s') :
    Recorded s' (moves ++ [m]) := by
  cases m with
  | opened handle name =>
    simp only [Publication.step] at hstep
    split at hstep
    · next hguard =>
      obtain ⟨-, rfl, hfresh⟩ := hguard
      cases hstep
      refine ⟨?_, ?_, h.name (.inl rfl) hfresh, ?_, ?_, ?_, ?_⟩
      · intro h' n hn
        rcases named_concat.mp hn with hold | hnew
        · exact mem_cons_of_mem _ (h.used _ _ hold)
        · simp only [Move.opened.injEq, reduceCtorEq, or_false] at hnew
          exact hnew.2 ▸ mem_cons_self
      · intro h' n hn
        rcases named_concat.mp hn with hold | hnew
        · exact Nat.lt_succ_of_lt (h.handle_lt _ _ hold)
        · simp only [Move.opened.injEq, reduceCtorEq, or_false] at hnew
          exact hnew.1 ▸ Nat.lt_succ_self _
      · rintro h' n heq
        cases heq
        exact named_concat.mpr (.inr (.inl rfl))
      · exact fun h' n heq => named_concat.mpr (.inl (h.active _ _ heq))
      · exact nofun
      · exact fun h' hactive => (h.published _ hactive).concat _
    · cases hstep
  | read handle =>
    simp only [Publication.step] at hstep
    split at hstep
    · cases hstep
      exact h.of_unnamed (by simp) (by simp) rfl rfl (fun _ => id) (fun _ => .inl)
        (fun h' hc hs => (h.checked h' hc hs).concat (by simp))
        (fun _ => .inl)
    · cases hstep
  | changed handle =>
    simp only [Publication.step] at hstep
    split at hstep
    · cases hstep
      exact h.of_unnamed (by simp) (by simp) rfl rfl (fun _ => id) (fun _ => .inl)
        nofun (fun _ => .inl)
    · next hstaged =>
      split at hstep
      · cases hstep
        refine h.of_unnamed (by simp) (by simp) rfl rfl (fun _ => id) (fun _ => .inl)
          (fun h' hc hs => (h.checked h' hc hs).concat ?_)
          (fun _ => .inl)
        -- the served object changed, not the staged one
        rintro heq
        cases heq
        exact hstaged hs
      · cases hstep
  | checked handle =>
    simp only [Publication.step] at hstep
    split at hstep
    · next hstaged =>
      cases hstep
      refine h.of_unnamed (by simp) (by simp) rfl rfl (fun _ => id) (fun _ => .inl)
        (fun h' _ hs => ?_) (fun _ => .inl)
      obtain rfl : handle = h' := Option.some.inj (hstaged.symm.trans hs)
      exact ⟨moves, [], rfl, by simp⟩
    · split at hstep
      · cases hstep
        exact h.of_unnamed (by simp) (by simp) rfl rfl (fun _ => id) (fun _ => .inl)
          (fun h' hc hs => (h.checked h' hc hs).concat (by simp))
          (fun _ => .inl)
      · cases hstep
  | dropped handle =>
    simp only [Publication.step] at hstep
    split at hstep
    · cases hstep
      exact h.of_unnamed (by simp) (by simp) rfl rfl nofun (fun _ => .inl) nofun (fun _ => .inl)
    · cases hstep
  | published handle =>
    simp only [Publication.step] at hstep
    split at hstep
    · next hguard =>
      obtain ⟨hstaged, hchecked⟩ := hguard
      cases hstep
      refine h.of_unnamed (by simp) (by simp) rfl rfl nofun (fun _ => .inr)
        nofun (fun h' hactive => .inr ?_)
      obtain rfl : handle = h' := Option.some.inj (hstaged.symm.trans hactive)
      exact ⟨moves, [], rfl, h.checked _ hchecked hstaged⟩
    · cases hstep
  | renamed handle name =>
    simp only [Publication.step] at hstep
    split at hstep
    · next hguard =>
      obtain ⟨hactive, -, hfresh⟩ := hguard
      cases hstep
      obtain ⟨old, hold⟩ : ∃ old, s.active = some (handle, old) := by
        simpa [Publication.activeHandle] using hactive
      refine ⟨?_, ?_, h.name (.inr rfl) hfresh, ?_, ?_, ?_, ?_⟩
      · intro h' n hn
        rcases named_concat.mp hn with hn | hnew
        · exact mem_cons_of_mem _ (h.used _ _ hn)
        · simp only [Move.renamed.injEq, reduceCtorEq, false_or] at hnew
          exact hnew.2 ▸ mem_cons_self
      · intro h' n hn
        rcases named_concat.mp hn with hn | hnew
        · exact h.handle_lt _ _ hn
        · simp only [Move.renamed.injEq, reduceCtorEq, false_or] at hnew
          exact hnew.1 ▸ h.handle_lt _ _ (h.active _ _ hold)
      · exact fun h' n heq => named_concat.mpr (.inl (h.staging _ _ heq))
      · rintro h' n heq
        cases heq
        exact named_concat.mpr (.inr (.inr rfl))
      · exact fun h' hc hs => (h.checked h' hc hs).concat (by simp)
      · intro h' heq
        obtain rfl : handle = h' := by simpa using heq
        exact (h.published _ (by simp [hold])).concat _
    · cases hstep

lemma Recorded.run {more : List (Move I)} (h : Recorded s moves) (hrun : s.run more = some s') :
    Recorded s' (moves ++ more) := by
  induction more generalizing s moves with
  | nil =>
    cases hrun
    rwa [append_nil]
  | cons m more ih =>
    rw [Publication.run_cons, Option.bind_eq_some_iff] at hrun
    obtain ⟨next, hstep, hrun⟩ := hrun
    simpa using ih (h.step hstep) hrun

end Steps

end Kwiry.Foundations
