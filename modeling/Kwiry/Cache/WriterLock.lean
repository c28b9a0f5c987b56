import Mathlib.Data.Fintype.Basic
import Mathlib.Data.Fin.Basic
import Mathlib.Tactic.Ring
import Kwiry.Foundations.Traces

/-!
# The Writer Lock

The lock file of a vault's cache directory. Any number of windows run `LocalCacheStore`s over the
directory, each with its file-system calls one at a time: `acquireLock` makes the file exclusively,
or looks at the file that is there and takes over from one that seems to be left behind;
`releaseLock` unlinks what stands at the path.
-/

namespace Kwiry

open Foundations

def staleLockMs : ℕ := 15 * 60 * 1000

/-- A lock file, told from later ones at its path. -/
structure LockFile where
  (inode mtimeMs : ℕ)
  deriving DecidableEq

inductive LockPhase where
  | idle
  | opening (retry : Bool)
  | writing (retry : Bool) (inode : ℕ)
  | closing (retry : Bool) (inode : ℕ)
  | inspecting
  | judging (seen : Option LockFile)
  | removing (seen : Option LockFile)
  | holding (inode : ℕ)
  deriving DecidableEq

/-- The file that an instance made and has not given up. -/
def LockPhase.kept : LockPhase → Option ℕ
  | .writing _ inode | .closing _ inode | .holding inode => some inode
  | .idle | .opening _ | .inspecting | .judging _ | .removing _ => none

/-- A failed `tryCreateLock` is followed by a look at the lock, or by giving up. -/
def LockPhase.afterFailure (retry : Bool) : LockPhase :=
  if retry then .idle else .inspecting

structure LockState (I : Type) where
  lock : Option LockFile
  (nextInode now : ℕ)
  phase : I → LockPhase

/-- What an unlink comes to: the parent directory may be refused, and the call may fail. -/
inductive Unlink where
  | done
  | failed
  | refused
  deriving DecidableEq

/-- A call of an instance with its outcome, the end of a window, or time. -/
inductive LockEvent (I : Type) where
  | acquire (i : I)
  | create (i : I) (ok : Bool)
  | write (i : I) (ok : Bool)
  | chmod (i : I) (ok : Bool)
  | lstat (i : I) (ok : Bool)
  | judge (i : I)
  | takeover (i : I) (outcome : Unlink)
  | release (i : I) (outcome : Unlink)
  | crash (i : I)
  | tick (ms : ℕ)

section Steps

variable {I : Type} [DecidableEq I]

def LockState.go (s : LockState I) (i : I) (phase : LockPhase) : LockState I :=
  { s with phase := Function.update s.phase i phase }

/-- Unlinks whatever stands at the path. -/
def LockState.unlinked (s : LockState I) (outcome : Unlink) : LockState I :=
  { s with lock := if outcome = .done then none else s.lock }

/-- Writing to a lock file sets its time, also when another file stands at the path by now. -/
def LockState.touched (s : LockState I) (inode : ℕ) : LockState I :=
  { s with lock := s.lock.map fun file =>
      if file.inode = inode then { file with mtimeMs := s.now } else file }

def lockStep (s : LockState I) : LockEvent I → Option (LockState I)
  | .acquire i =>
    match s.phase i with
    | .idle => some (s.go i (.opening false))
    | _ => none
  | .create i ok =>
    match s.phase i with
    | .opening retry =>
      -- the flag `wx` refuses a file that exists
      if ok ∧ s.lock = none then
        some { s.go i (.writing retry s.nextInode) with
          lock := some ⟨s.nextInode, s.now⟩, nextInode := s.nextInode + 1 }
      else some (s.go i (.afterFailure retry))
    | _ => none
  | .write i ok =>
    match s.phase i with
    | .writing retry inode =>
      if ok then some ((s.touched inode).go i (.closing retry inode))
      else some (s.go i (.afterFailure retry))
    | _ => none
  | .chmod i ok =>
    match s.phase i with
    | .closing retry inode =>
      if ok then some (s.go i (.holding inode)) else some (s.go i (.afterFailure retry))
    | _ => none
  | .lstat i ok =>
    match s.phase i with
    | .inspecting => some (s.go i (.judging (if ok then s.lock else none)))
    | _ => none
  | .judge i =>
    match s.phase i with
    -- whatever made the look fail counts as a lock left behind
    | .judging none => some (s.go i (.removing none))
    | .judging (some file) =>
      if staleLockMs < s.now - file.mtimeMs then some (s.go i (.removing (some file)))
      else some (s.go i .idle)
    | _ => none
  | .takeover i outcome =>
    match s.phase i with
    | .removing _ =>
      if outcome = .refused then some (s.go i .idle)
      else some ((s.unlinked outcome).go i (.opening true))
    | _ => none
  | .release i outcome =>
    match s.phase i with
    | .holding _ => some ((s.unlinked outcome).go i .idle)
    | _ => none
  | .crash i => some (s.go i .idle)
  | .tick ms => some { s with now := s.now + ms }

/-! ## §1 What is asked of a run -/

/-- Between a successful `acquireLock` and the end of `releaseLock`. -/
def LockState.Holds (s : LockState I) (i : I) : Prop :=
  ∃ inode, s.phase i = .holding inode

def LockState.Exclusive (s : LockState I) : Prop :=
  ∀ i j, s.Holds i → s.Holds j → i = j

/-- No instance is in its lock calls; the file of a window that is gone may be there. -/
structure LockState.Quiet (s : LockState I) : Prop where
  idle : ∀ i, s.phase i = .idle
  made : ∀ file ∈ s.lock, file.inode < s.nextInode

/-- An instance has made the file at the path and not given it up. -/
def LockState.Live (s : LockState I) (file : LockFile) : Prop :=
  ∃ i, (s.phase i).kept = some file.inode

/-- Nobody keeps a lock file for longer than it stays fresh. -/
def LockState.Prompt (s : LockState I) : Prop :=
  ∀ file ∈ s.lock, s.Live file → s.now ≤ file.mtimeMs + staleLockMs

/-- A takeover that would unlink the file of a live instance finds the file it looked at. -/
def SafeTakeover (s : LockState I) : LockEvent I → Prop
  | .takeover i .done =>
    ∀ file ∈ s.lock, s.Live file → s.phase i = .removing (some file)
  | _ => True

/-! ## §2 One step -/

@[simp] lemma LockState.go_self (s : LockState I) (i : I) (phase : LockPhase) :
    (s.go i phase).phase i = phase :=
  Function.update_self ..

lemma LockState.go_of_ne (s : LockState I) {i j : I} (phase : LockPhase) (h : j ≠ i) :
    (s.go i phase).phase j = s.phase j :=
  Function.update_of_ne h ..

@[simp] lemma LockState.go_lock (s : LockState I) (i : I) (phase : LockPhase) :
    (s.go i phase).lock = s.lock := rfl

@[simp] lemma LockState.go_now (s : LockState I) (i : I) (phase : LockPhase) :
    (s.go i phase).now = s.now := rfl

@[simp] lemma LockState.go_nextInode (s : LockState I) (i : I) (phase : LockPhase) :
    (s.go i phase).nextInode = s.nextInode := rfl

/-- Every kept file stands at the path, is kept by one instance, and a takeover under way found the
lock left behind. -/
structure LockState.Guarded (s : LockState I) : Prop where
  kept : ∀ i inode, (s.phase i).kept = some inode → ∃ file ∈ s.lock, file.inode = inode
  unique : ∀ i j inode, (s.phase i).kept = some inode → (s.phase j).kept = some inode → i = j
  made : ∀ file ∈ s.lock, file.inode < s.nextInode
  stale : ∀ i file, s.phase i = .removing (some file) → file.mtimeMs + staleLockMs < s.now

variable {s : LockState I}

omit [DecidableEq I] in
lemma LockState.Quiet.guarded (h : s.Quiet) : s.Guarded where
  kept i inode hkept := by simp [h.idle i, LockPhase.kept] at hkept
  unique i j inode hkept := by simp [h.idle i, LockPhase.kept] at hkept
  made := h.made
  stale i file hphase := by simp [h.idle i] at hphase

omit [DecidableEq I] in
lemma LockState.Guarded.kept_eq (h : s.Guarded) {i j : I} {m n : ℕ}
    (hi : (s.phase i).kept = some m) (hj : (s.phase j).kept = some n) : i = j := by
  obtain ⟨file, hfile, rfl⟩ := h.kept i m hi
  obtain ⟨other, hother, rfl⟩ := h.kept j n hj
  obtain rfl : file = other := Option.some.inj (hfile.symm.trans hother)
  exact h.unique i j file.inode hi hj

omit [DecidableEq I] in
lemma LockState.Guarded.exclusive (h : s.Guarded) : s.Exclusive := by
  rintro i j ⟨m, hi⟩ ⟨n, hj⟩
  apply h.kept_eq (m := m) (n := n)
  · rw [hi]; rfl
  · rw [hj]; rfl

/-- An instance that moves on without a new file, and without a takeover that is unfounded. -/
theorem LockState.Guarded.go (h : s.Guarded) {i : I} {phase : LockPhase}
    (hkept : ∀ inode, phase.kept = some inode → (s.phase i).kept = some inode)
    (hstale : ∀ file, phase = .removing (some file) → file.mtimeMs + staleLockMs < s.now) :
    (s.go i phase).Guarded := by
  have hback : ∀ j inode, ((s.go i phase).phase j).kept = some inode →
      (s.phase j).kept = some inode := by
    intro j inode hj
    by_cases hji : j = i
    · subst hji
      rw [LockState.go_self] at hj
      exact hkept inode hj
    · rwa [s.go_of_ne phase hji] at hj
  refine ⟨?_, ?_, h.made, ?_⟩
  · exact fun j inode hj => h.kept j inode (hback j inode hj)
  · exact fun j k inode hj hk => h.unique j k inode (hback j inode hj) (hback k inode hk)
  · intro j file hj
    by_cases hji : j = i
    · subst hji
      rw [LockState.go_self] at hj
      exact hstale file hj
    · rw [s.go_of_ne phase hji] at hj
      exact h.stale j file hj

/-- An unlink is harmless where nobody else keeps a file. -/
theorem LockState.Guarded.unlinked_go (h : s.Guarded) {i : I} {phase : LockPhase} {outcome : Unlink}
    (hphase : phase.kept = none) (hremoving : ∀ file, phase ≠ .removing (some file))
    (halone : outcome = .done → ∀ j, j ≠ i → (s.phase j).kept = none) :
    ((s.unlinked outcome).go i phase).Guarded := by
  by_cases hdone : outcome = .done
  · have hnone : ∀ j, (((s.unlinked outcome).go i phase).phase j).kept = none := by
      intro j
      by_cases hji : j = i
      · subst hji
        rw [LockState.go_self]
        exact hphase
      · rw [LockState.go_of_ne _ phase hji]
        exact halone hdone j hji
    refine ⟨?_, ?_, ?_, ?_⟩
    · exact fun j inode hj => by simp [hnone j] at hj
    · exact fun j k inode hj => by simp [hnone j] at hj
    · exact fun file hfile => by simp [LockState.unlinked, hdone] at hfile
    · intro j file hj
      by_cases hji : j = i
      · subst hji
        rw [LockState.go_self] at hj
        exact absurd hj (hremoving file)
      · rw [LockState.go_of_ne _ phase hji] at hj
        exact h.stale j file hj
  · have hsame : s.unlinked outcome = s := by simp [LockState.unlinked, hdone]
    rw [hsame]
    exact h.go (fun inode hkept => by simp [hphase] at hkept)
      (fun file hfile => absurd hfile (hremoving file))

omit [DecidableEq I] in
lemma LockState.Guarded.touched (h : s.Guarded) (inode : ℕ) : (s.touched inode).Guarded where
  kept i n hn := by
    obtain ⟨file, hfile, rfl⟩ := h.kept i n hn
    refine ⟨if file.inode = inode then { file with mtimeMs := s.now } else file, ?_, ?_⟩
    · exact Option.mem_map_of_mem _ hfile
    · split <;> rfl
  unique := h.unique
  made file hfile := by
    obtain ⟨old, hold, rfl⟩ := Option.mem_map.mp hfile
    have hlt := h.made old hold
    split
    · exact hlt
    · exact hlt
  stale := h.stale

/-- A step of an acquisition fails. -/
theorem LockState.Guarded.failed (h : s.Guarded) (i : I) (retry : Bool) :
    (s.go i (.afterFailure retry)).Guarded := by
  cases retry <;> exact h.go nofun nofun

/-- Making the file: nobody keeps one, since there was none at the path. -/
theorem LockState.Guarded.created (h : s.Guarded) (hnone : s.lock = none) (i : I) (retry : Bool) :
    LockState.Guarded { s.go i (.writing retry s.nextInode) with
      lock := some ⟨s.nextInode, s.now⟩, nextInode := s.nextInode + 1 } := by
  have halone : ∀ j inode, (s.phase j).kept ≠ some inode := by
    intro j inode hj
    obtain ⟨file, hfile, -⟩ := h.kept j inode hj
    rw [hnone] at hfile
    cases hfile
  have hself : ∀ j inode, ((s.go i (.writing retry s.nextInode)).phase j).kept = some inode →
      j = i ∧ inode = s.nextInode := by
    intro j inode hj
    by_cases hji : j = i
    · subst hji
      rw [LockState.go_self] at hj
      exact ⟨rfl, (Option.some.inj hj).symm⟩
    · rw [LockState.go_of_ne _ _ hji] at hj
      exact absurd hj (halone j inode)
  refine ⟨?_, ?_, ?_, ?_⟩
  · intro j inode hj
    exact ⟨_, rfl, (hself j inode hj).2.symm⟩
  · intro j k inode hj hk
    exact (hself j inode hj).1.trans (hself k inode hk).1.symm
  · rintro file hfile
    cases hfile
    exact Nat.lt_succ_self _
  · intro j file hj
    by_cases hji : j = i
    · subst hji
      simp [LockState.go] at hj
    · have hold : s.phase j = .removing (some file) := by
        rw [← LockState.go_of_ne s (.writing retry s.nextInode) hji]
        exact hj
      exact h.stale j file hold

theorem LockState.Guarded.step {s' : LockState I} {e : LockEvent I} (h : s.Guarded)
    (hprompt : s.Prompt) (hsafe : SafeTakeover s e) (hstep : lockStep s e = some s') :
    s'.Guarded := by
  cases e with
  | acquire i =>
    simp only [lockStep] at hstep
    split at hstep
    · cases hstep
      exact h.go nofun nofun
    · cases hstep
  | create i ok =>
    simp only [lockStep] at hstep
    split at hstep
    · next retry hphase =>
      split at hstep
      · next hfree =>
        cases hstep
        exact h.created hfree.2 i retry
      · cases hstep
        exact h.failed i retry
    · cases hstep
  | write i ok =>
    simp only [lockStep] at hstep
    split at hstep
    · next retry inode hphase =>
      split at hstep
      · cases hstep
        refine (h.touched inode).go (fun n hkept => ?_) nofun
        change (s.phase i).kept = some n
        rw [hphase]
        exact hkept
      · cases hstep
        exact h.failed i retry
    · cases hstep
  | chmod i ok =>
    simp only [lockStep] at hstep
    split at hstep
    · next retry inode hphase =>
      split at hstep
      · cases hstep
        refine h.go (fun n hkept => ?_) nofun
        rw [hphase]
        exact hkept
      · cases hstep
        exact h.failed i retry
    · cases hstep
  | lstat i ok =>
    simp only [lockStep] at hstep
    split at hstep
    · cases hstep
      exact h.go nofun nofun
    · cases hstep
  | judge i =>
    simp only [lockStep] at hstep
    split at hstep
    · cases hstep
      exact h.go nofun nofun
    · next file hphase =>
      split at hstep
      · next hold =>
        cases hstep
        refine h.go nofun (fun old heq => ?_)
        cases heq
        omega
      · cases hstep
        exact h.go nofun nofun
    · cases hstep
  | takeover i outcome =>
    simp only [lockStep] at hstep
    split at hstep
    · next seen hphase =>
      split at hstep
      · cases hstep
        exact h.go nofun nofun
      · cases hstep
        refine h.unlinked_go rfl nofun (fun hdone j _ => ?_)
        -- a file that is kept is fresh, and the file that was looked at is not
        subst hdone
        by_contra hne
        obtain ⟨inode, hkept⟩ := Option.ne_none_iff_exists'.mp hne
        obtain ⟨file, hfile, rfl⟩ := h.kept j inode hkept
        have hfresh := hprompt file hfile ⟨j, hkept⟩
        have hseen := hsafe file hfile ⟨j, hkept⟩
        have hstale := h.stale i file hseen
        omega
    · cases hstep
  | release i outcome =>
    simp only [lockStep] at hstep
    split at hstep
    · next inode hphase =>
      cases hstep
      refine h.unlinked_go rfl nofun (fun _ j hji => ?_)
      -- the file at the path is the one of the instance that releases
      by_contra hne
      obtain ⟨other, hkept⟩ := Option.ne_none_iff_exists'.mp hne
      have hown : (s.phase i).kept = some inode := by rw [hphase]; rfl
      exact hji (h.kept_eq hkept hown)
    · cases hstep
  | crash i =>
    cases hstep
    exact h.go nofun nofun
  | tick ms =>
    cases hstep
    refine ⟨h.kept, h.unique, h.made, fun i file hphase => ?_⟩
    have hstale := h.stale i file hphase
    show file.mtimeMs + staleLockMs < s.now + ms
    omega

/-! ## §3 Runs -/

/-- One holder at most, in every state of a run whose takeovers unlink what they looked at. -/
theorem writerLock_exclusive {s₀ s : LockState I} {events : List (LockEvent I)}
    (hquiet : s₀.Quiet) (hrun : runEvents lockStep s₀ events = some s)
    (hprompt : Always lockStep LockState.Prompt s₀ events)
    (hsafe : Each lockStep SafeTakeover s₀ events) : s.Exclusive := by
  have hguarded : s.Guarded := runEvents_invariant
    (fun _ _ _ hs hprompt hsafe hstep => hs.step hprompt hsafe hstep) hquiet.guarded hrun hprompt
    hsafe
  exact hguarded.exclusive

end Steps

section Decidable

variable {I : Type} [DecidableEq I] [Fintype I]

instance (s : LockState I) (file : LockFile) : Decidable (s.Live file) :=
  inferInstanceAs (Decidable (∃ i, (s.phase i).kept = some file.inode))

instance (s : LockState I) : Decidable s.Prompt :=
  inferInstanceAs (Decidable (∀ file ∈ s.lock, s.Live file → s.now ≤ file.mtimeMs + staleLockMs))

instance (s : LockState I) (e : LockEvent I) : Decidable (SafeTakeover s e) := by
  unfold SafeTakeover
  split
  · infer_instance
  · infer_instance

end Decidable

/-- A directory that three windows are about to use. -/
def lockDirectory (lock : Option LockFile) (now : ℕ) : LockState (Fin 3) :=
  ⟨lock, 1, now, fun _ => .idle⟩

/-- A window makes the lock and gets to hold it. -/
def acquired (i : Fin 3) : List (LockEvent (Fin 3)) :=
  [.create i true, .write i true, .chmod i true]

/-- The second window takes over from a crashed one and gives the lock back. -/
def takeover : List (LockEvent (Fin 3)) :=
  [.acquire 1, .create 1 true, .lstat 1 true, .judge 1, .takeover 1 .done] ++ acquired 1 ++
    [.release 1 .done]

theorem writerLock_exclusive_takeover : ∃ s, runEvents lockStep
    (lockDirectory (some ⟨0, 0⟩) (staleLockMs + 1)) (takeover ++ [.acquire 2] ++ acquired 2) =
      some s ∧ s.Exclusive := by
  have hsome : (runEvents lockStep (lockDirectory (some ⟨0, 0⟩) (staleLockMs + 1))
      (takeover ++ [.acquire 2] ++ acquired 2)).isSome := by decide +kernel
  obtain ⟨s, hs⟩ := Option.isSome_iff_exists.mp hsome
  refine ⟨s, hs, writerLock_exclusive ⟨fun _ => rfl, ?_⟩ hs ?_ ?_⟩
  · decide +kernel
  · decide +kernel
  · decide +kernel

/-- The second window looks for the lock of the first when it is gone, and unlinks the lock that the
third has made by then. -/
def takeoverRace : List (LockEvent (Fin 3)) :=
  .acquire 0 :: acquired 0 ++ [.acquire 1, .create 1 true, .release 0 .done, .lstat 1 true] ++
    .acquire 2 :: acquired 2 ++ [.judge 1, .takeover 1 .done] ++ acquired 1

theorem writerLock_shared : ¬ ∀ (s₀ s : LockState (Fin 3)) (events : List (LockEvent (Fin 3))),
    s₀.Quiet → runEvents lockStep s₀ events = some s → Always lockStep LockState.Prompt s₀ events →
      s.Exclusive := by
  intro hclaim
  have hphases : (runEvents lockStep (lockDirectory none 0) takeoverRace).map
      (fun s => (s.phase 1, s.phase 2)) = some (.holding 3, .holding 2) := by decide +kernel
  obtain ⟨s, hs, hphase⟩ := Option.map_eq_some_iff.mp hphases
  obtain ⟨hfirst, hsecond⟩ := Prod.mk.inj hphase
  have hexclusive : s.Exclusive := by
    apply hclaim (lockDirectory none 0) s takeoverRace ⟨fun _ => rfl, by decide +kernel⟩ hs
    decide +kernel
  have heq : (1 : Fin 3) = 2 := hexclusive 1 2 ⟨3, hfirst⟩ ⟨2, hsecond⟩
  exact absurd heq (by decide)

end Kwiry
