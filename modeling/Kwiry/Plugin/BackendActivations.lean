import Kwiry.Plugin.BackendManager

/-!
# What Activations Keep

The invariant of the backend manager, and the steps of an activation between two awaits. One
activation at a time has gone on and not come to its end; the backends before it are released, and
while it is busy no backend but its own is active.
-/

namespace Kwiry.Plugin.Switching

open Function

variable {Error : Type}

/-! ## §1 Invariants -/

/-- A phase before an activation creates its backend. -/
def Phase.Before : Phase Error → Prop
  | .waitPrior | .woken _ | .running | .waitDispose _ (.immediate _) | .waitDispose _ .previous =>
    True
  | _ => False

/-- What the activation before came to, as a phase remembers it. -/
def Phase.previous : Phase Error → Option ℕ
  | .woken previous | .waitDispose _ (.immediate previous) => previous
  | _ => none

/-- An activation that neither waits for the one before nor has come to its end. -/
def Phase.Busy : Phase Error → Prop
  | .waitPrior | .settled _ => False
  | _ => True

/-- A call of `dispose` that an activation has yet to await, or awaits. -/
def Activation.Awaits (a : Activation Error) (call : ℕ) : Prop :=
  match a.phase with
  | .waitPrior | .woken _ => a.immediateDisposal = some call
  | .waitDispose c _ => c = call
  | _ => False

variable {phase : Phase Error}

lemma Phase.Busy.ne_waitPrior (h : phase.Busy) : phase ≠ .waitPrior := by
  rintro rfl
  exact h

lemma Phase.Busy.ne_settled (h : phase.Busy) (result : Except (Failure Error) (Option ℕ)) :
    phase ≠ .settled result := by
  rintro rfl
  exact h

def Waiter.IsCurrent : Waiter → Prop
  | .current _ => True
  | _ => False

namespace Manager

/-- Calls of `current` wait for an activation before the next activation does. -/
structure Queues (s : Manager Error) : Prop where
  waiter : ∀ k j, .activation j ∈ (s.activations k).waiters →
    j = k + 1 ∧ k < s.activation ∧ (s.activations j).phase = .waitPrior
  once : ∀ k, (s.activations k).waiters.Pairwise fun x y =>
    ∀ j, x = .activation j → y ≠ .activation j
  order : ∀ k, (s.activations k).waiters.Pairwise fun x y => y.IsCurrent → x.IsCurrent
  disposal : ∀ k, .disposal ∈ (s.activations k).waiters → s.closed = true
  inLine : ∀ k c, .current c ∈ (s.activations k).waiters → k < s.activation →
    (s.activations (k + 1)).phase = .waitPrior
  called : ∀ k c, .current c ∈ (s.activations k).waiters → k ≤ s.activation

/-- No activation goes on before the one before has come to its end. -/
structure Chain (s : Manager Error) : Prop where
  epochs : s.closed = false → s.activationEpoch = s.activation
  epoch : ∀ k ≤ s.activation, (s.activations k).epoch = k
  chain : ∀ k < s.activation, (s.activations (k + 1)).phase ≠ .waitPrior →
    ∃ result, (s.activations k).phase = .settled result
  later : ∀ k, s.activation < k →
    s.backends k = none ∧ ∃ result, (s.activations k).phase = .settled result

/-- What holds of an activation by itself. -/
structure Local (s : Manager Error) (k : ℕ) (a : Activation Error) : Prop where
  uncreated : a.phase.Before → s.backends k = none
  previous : ∀ b, a.phase.previous = some b → s.Initialized b
  fulfilled : ∀ b, a.phase = .settled (.ok (some b)) → b = k ∧ s.Initialized b
  awaited : ∀ c call, s.calls c = some call → call.owner = some k → call.result = none →
    a.Awaits c

/-- Every backend is active, which only the one of the latest activation can be, or its `dispose`
has been called. -/
structure Backends (s : Manager Error) : Prop where
  locals : ∀ k, s.Local k (s.activations k)
  active : ∀ b, s.activeBackend = some b → b = s.activation ∧ s.closed = false ∧ s.Created b ∧
    ((s.activations b).phase = .initializing ∨
      (s.activations b).phase = .settled (.ok (some b))) ∧ ¬ s.DisposeCalled b
  released : ∀ b, s.Created b → s.activeBackend = some b ∨ s.DisposeCalled b
  calls : ∀ c, s.callCount ≤ c → s.calls c = none
  callee : ∀ c call, s.calls c = some call → s.Created call.backend
  unowned : ∀ c call, s.calls c = some call → call.owner = none → s.closed = true
  checking : ∀ c b, s.currents c = some (.checking (some b)) → s.Initialized b

/-- What the manager's disposal remembers. -/
structure Closing (s : Manager Error) : Prop where
  closed : s.disposal.isSome = true → s.closed = true
  late : ∀ active b, s.disposal = some ⟨active, .woken (some b)⟩ → s.Created b

structure Invariant (s : Manager Error) : Prop where
  queues : Queues s
  chain : Chain s
  backends : Backends s
  closing : Closing s

section Lemmas

variable {s t : Manager Error} {k : ℕ}

@[simp] lemma setPhase_self (phase : Phase Error) :
    (s.setPhase k phase).activations k = { s.activations k with phase := phase } :=
  update_self ..

variable {b c j : ℕ}

lemma setPhase_of_ne (h : j ≠ k) (phase : Phase Error) :
    (s.setPhase k phase).activations j = s.activations j :=
  update_of_ne h ..

/-- What a changed activation keeps is what it was, everywhere. -/
theorem setActivation_kept {A : Type} (part : Activation Error → A) {a : Activation Error}
    (h : part a = part (s.activations k)) (j : ℕ) :
    part ((s.setActivation k a).activations j) = part (s.activations j) := by
  change part (update s.activations k a j) = _
  by_cases hj : j = k
  · rw [hj, update_self, h]
  · rw [update_of_ne hj]

lemma setPhase_waiters (j : ℕ) (phase : Phase Error) :
    ((s.setPhase k phase).activations j).waiters = (s.activations j).waiters :=
  setActivation_kept (a := { s.activations k with phase := phase }) Activation.waiters rfl j

lemma setPhase_epoch (j : ℕ) (phase : Phase Error) :
    ((s.setPhase k phase).activations j).epoch = (s.activations j).epoch :=
  setActivation_kept (a := { s.activations k with phase := phase }) Activation.epoch rfl j

lemma Created.of_initialized (h : s.Initialized b) : s.Created b := by
  obtain ⟨identity, h⟩ := h
  rw [Created, h]
  rfl

/-- All before an activation that has gone on have come to their end. -/
theorem Chain.below (h : Chain s) {i : ℕ} (hij : i < j) (hj : j ≤ s.activation)
    (hphase : (s.activations j).phase ≠ .waitPrior) :
    ∃ result, (s.activations i).phase = .settled result := by
  induction j, hij using Nat.le_induction with
  | base => exact h.chain i (by omega) hphase
  | succ j hij ih =>
    obtain ⟨result, hresult⟩ := h.chain j (by omega) hphase
    exact ih (by omega) (by simp [hresult])

lemma Chain.le_of_busy (h : Chain s) (hbusy : (s.activations k).phase.Busy) :
    k ≤ s.activation := by
  by_contra hlt
  obtain ⟨-, result, hresult⟩ := h.later k (Nat.lt_of_not_le hlt)
  rw [hresult] at hbusy
  exact hbusy

lemma Invariant.active_of_busy (h : Invariant s) (hbusy : (s.activations k).phase.Busy)
    (hactive : s.activeBackend = some b) : b = k := by
  obtain ⟨rfl, -, -, hphase, -⟩ := h.backends.active b hactive
  rcases Nat.lt_or_eq_of_le (h.chain.le_of_busy hbusy) with hlt | heq
  · have hgone : (s.activations s.activation).phase ≠ .waitPrior := by
      rcases hphase with hphase | hphase <;> simp [hphase]
    obtain ⟨result, hresult⟩ := h.chain.below hlt (Nat.le_refl _) hgone
    rw [hresult] at hbusy
    exact hbusy.elim
  · exact heq.symm

lemma Invariant.idle_of_before (h : Invariant s) (hbusy : (s.activations k).phase.Busy)
    (hbefore : (s.activations k).phase.Before) : s.activeBackend = none := by
  cases hactive : s.activeBackend with
  | none => rfl
  | some b =>
    obtain rfl := h.active_of_busy hbusy hactive
    have hcreated := (h.backends.active b hactive).2.2.1
    rw [Created, (h.backends.locals b).uncreated hbefore] at hcreated
    cases hcreated

/-- Queues do not depend on phases but for the first. -/
theorem Queues.congr (h : Queues s) (hactivation : t.activation = s.activation)
    (hclosed : s.closed = true → t.closed = true)
    (hwaiters : ∀ j, (t.activations j).waiters = (s.activations j).waiters)
    (hphase : ∀ j, (s.activations j).phase = .waitPrior → (t.activations j).phase = .waitPrior) :
    Queues t where
  waiter j next hmem := by
    rw [hwaiters] at hmem
    obtain ⟨hnext, hlt, hwait⟩ := h.waiter j next hmem
    exact ⟨hnext, hactivation ▸ hlt, hphase _ hwait⟩
  once j := hwaiters j ▸ h.once j
  order j := hwaiters j ▸ h.order j
  disposal j hmem := hclosed (h.disposal j (hwaiters j ▸ hmem))
  inLine j c hmem hlt := hphase _ (h.inLine j c (hwaiters j ▸ hmem) (hactivation ▸ hlt))
  called j c hmem := hactivation ▸ h.called j c (hwaiters j ▸ hmem)

lemma Chain.congr (h : Chain s) (hactivation : t.activation = s.activation)
    (hclosed : t.closed = s.closed) (hepochs : t.activationEpoch = s.activationEpoch)
    (hepoch : ∀ j, (t.activations j).epoch = (s.activations j).epoch)
    (hphase : ∀ j, (t.activations j).phase ≠ .waitPrior → (s.activations j).phase ≠ .waitPrior)
    (hsettled : ∀ j result, (s.activations j).phase = .settled result →
      ∃ result, (t.activations j).phase = .settled result)
    (hbackends : ∀ j, s.activation < j → t.backends j = s.backends j) : Chain t where
  epochs hopen := by rw [hepochs, hactivation]; exact h.epochs (hclosed ▸ hopen)
  epoch j hj := by rw [hepoch]; exact h.epoch j (hactivation ▸ hj)
  chain j hj hwait := by
    obtain ⟨result, hresult⟩ := h.chain j (hactivation ▸ hj) (hphase _ hwait)
    exact hsettled j result hresult
  later j hj := by
    rw [hactivation] at hj
    obtain ⟨hnone, result, hresult⟩ := h.later j hj
    exact ⟨(hbackends j hj).trans hnone, hsettled j result hresult⟩

lemma Queues.frame (h : Queues s) (hactivations : t.activations = s.activations)
    (hactivation : t.activation = s.activation) (hclosed : t.closed = s.closed) : Queues t :=
  h.congr hactivation hclosed.trans (fun j => by rw [hactivations]) fun j hj => by rwa [hactivations]

lemma Chain.frame (h : Chain s) (hactivations : t.activations = s.activations)
    (hactivation : t.activation = s.activation) (hclosed : t.closed = s.closed)
    (hepochs : t.activationEpoch = s.activationEpoch)
    (hbackends : ∀ j, s.activation < j → t.backends j = s.backends j) : Chain t :=
  h.congr hactivation hclosed hepochs (fun j => by rw [hactivations])
    (fun j hj => by rwa [hactivations] at hj)
    (fun j result hj => ⟨result, by rwa [hactivations]⟩) hbackends

lemma Local.frame {a : Activation Error} (h : s.Local k a)
    (huncreated : s.backends k = none → t.backends k = none)
    (hinitialized : ∀ b, s.Initialized b → t.Initialized b)
    (hcalls : ∀ c call, t.calls c = some call → call.owner = some k → call.result = none →
      s.calls c = some call) : t.Local k a where
  uncreated hbefore := huncreated (h.uncreated hbefore)
  previous b hb := hinitialized b (h.previous b hb)
  fulfilled b hb := (h.fulfilled b hb).imp_right (hinitialized b)
  awaited c call hcall howner hnone := h.awaited c call (hcalls c call hcall howner hnone) howner hnone

lemma Local.same {a : Activation Error} (h : s.Local k a) (hbackends : t.backends = s.backends)
    (hcalls : t.calls = s.calls) : t.Local k a :=
  h.frame (fun hb => by rwa [hbackends]) (fun b hb => by rwa [Initialized, hbackends])
    fun c call hc _ _ => by rwa [hcalls] at hc

/-- The counters are not looked at, the calls of `current` only where one is about to resolve. -/
theorem Invariant.setCurrents (h : Invariant s) {nextInstance currentCount : ℕ}
    {currents : ℕ → Option (Current Error)}
    (hchecking : ∀ c b, currents c = some (.checking (some b)) → s.Initialized b) :
    Invariant { s with
      nextInstance := nextInstance, currentCount := currentCount, currents := currents } :=
  ⟨h.queues.frame rfl rfl rfl, h.chain.frame rfl rfl rfl rfl fun _ _ => rfl,
    ⟨fun j => (h.backends.locals j).same rfl rfl, h.backends.active, h.backends.released,
      h.backends.calls, h.backends.callee, h.backends.unowned, hchecking⟩,
    ⟨h.closing.closed, h.closing.late⟩⟩

lemma calls_callDispose (b : ℕ) (owner : Option ℕ) (c : ℕ) :
    (s.callDispose b owner).calls c =
      if c = s.callCount then some ⟨b, owner, none⟩ else s.calls c :=
  update_apply ..

lemma disposeCalled_callDispose (b : ℕ) (owner : Option ℕ) :
    (s.callDispose b owner).DisposeCalled b :=
  ⟨s.callCount, _, by rw [calls_callDispose, if_pos rfl], rfl⟩

variable {owner previous : Option ℕ}

lemma Invariant.disposeCalled (h : Invariant s) {other : ℕ} (hcalled : s.DisposeCalled other) :
    (s.callDispose b owner).DisposeCalled other := by
  obtain ⟨c, call, hcall, hother⟩ := hcalled
  have hne : c ≠ s.callCount := by
    rintro rfl
    rw [h.backends.calls s.callCount (Nat.le_refl _)] at hcall
    cases hcall
  exact ⟨c, call, by rw [calls_callDispose, if_neg hne, hcall], hother⟩

lemma Invariant.calls_fresh (h : Invariant s) (hc : s.callCount + 1 ≤ c) :
    (s.callDispose b owner).calls c = none := by
  rw [calls_callDispose, if_neg (by omega)]
  exact h.backends.calls c (by omega)

lemma Invariant.callee (h : Invariant s) (hcreated : s.Created b) {call : DisposeCall Error}
    (hcall : (s.callDispose b owner).calls c = some call) : s.Created call.backend := by
  rw [calls_callDispose] at hcall
  split at hcall
  · cases hcall
    exact hcreated
  · exact h.backends.callee c call hcall

lemma busy_of_running (hrunning : (s.activations k).phase = .running) :
    (s.activations k).phase.Busy ∧ (s.activations k).phase.Before := by
  rw [hrunning]
  exact ⟨trivial, trivial⟩

/-! ## §2 Phases -/

section

variable (h : Invariant s)

include h

lemma Invariant.queues_setPhase (hbusy : (s.activations k).phase.Busy) (phase : Phase Error) :
    Queues (s.setPhase k phase) := by
  refine h.queues.congr rfl (fun hclosed => hclosed) (fun j => setPhase_waiters j phase) ?_
  intro j hwait
  have hj : j ≠ k := by
    rintro rfl
    exact hbusy.ne_waitPrior hwait
  rw [setPhase_of_ne hj]
  exact hwait

lemma Invariant.chain_setPhase (hbusy : (s.activations k).phase.Busy) (phase : Phase Error) :
    Chain (s.setPhase k phase) := by
  refine h.chain.congr rfl rfl rfl (fun j => setPhase_epoch j phase) ?_ ?_ (fun _ _ => rfl)
  · intro j hwait
    by_cases hj : j = k
    · rw [hj]
      exact hbusy.ne_waitPrior
    · rwa [setPhase_of_ne hj] at hwait
  · intro j result hresult
    have hj : j ≠ k := by
      rintro rfl
      exact hbusy.ne_settled result hresult
    exact ⟨result, by rw [setPhase_of_ne hj, hresult]⟩

lemma Invariant.setPhase (hbusy : (s.activations k).phase.Busy)
    (hlocal : s.Local k { s.activations k with phase := phase })
    (hactive : s.activeBackend = some k → phase = .initializing ∨ phase = .settled (.ok (some k))) :
    Invariant (s.setPhase k phase) := by
  refine ⟨h.queues_setPhase hbusy phase, h.chain_setPhase hbusy phase,
    ⟨?_, ?_, h.backends.released, h.backends.calls, h.backends.callee, h.backends.unowned,
      h.backends.checking⟩, ⟨h.closing.closed, h.closing.late⟩⟩
  · intro j
    have hother := h.backends.locals j
    by_cases hj : j = k
    · rw [hj, setPhase_self]
      exact hlocal.same rfl rfl
    · rw [setPhase_of_ne hj]
      exact hother.same rfl rfl
  · intro b hb
    obtain ⟨hlatest, hopen, hcreated, hphase, hcalled⟩ := h.backends.active b hb
    refine ⟨hlatest, hopen, hcreated, ?_, hcalled⟩
    obtain rfl := h.active_of_busy hbusy hb
    rw [setPhase_self]
    exact hactive hb

/-- An activation comes to its end without a backend. -/
theorem Invariant.reject (hbusy : (s.activations k).phase.Busy) (hidle : s.activeBackend ≠ some k)
    (hcalls : ∀ c call, s.calls c = some call → call.owner = some k → call.result.isSome = true)
    (failure : Failure Error) : Invariant (s.setPhase k (.settled (.error failure))) := by
  apply h.setPhase hbusy
  · refine ⟨fun hbefore => hbefore.elim, nofun, nofun, ?_⟩
    intro c call hcall howner hnone
    have hsome := hcalls c call hcall howner
    rw [hnone] at hsome
    cases hsome
  · exact fun hactive => absurd hactive hidle

/-- The calls that an activation has made have settled when it awaits none. -/
theorem Invariant.settled_of_not_awaits (hnone : ∀ c, ¬ (s.activations k).Awaits c)
    {call : DisposeCall Error} (hcall : s.calls c = some call) (howner : call.owner = some k) :
    call.result.isSome = true := by
  cases hresult : call.result with
  | some result => rfl
  | none => exact absurd ((h.backends.locals k).awaited c call hcall howner hresult) (hnone c)

/-- An activation calls `dispose` of the active backend, or of another where none is active, and
awaits it. -/
theorem Invariant.awaitDispose (hbusy : (s.activations k).phase.Busy)
    (hnone : ∀ c, ¬ (s.activations k).Awaits c) (hcreated : s.Created b)
    (hactive : ∀ other, s.activeBackend = some other → other = b) (next : AfterDispose Error)
    (hnext : ∀ previous, next ≠ .immediate previous)
    (hbefore : next = .previous → s.backends k = none) :
    Invariant ({ s with activeBackend := none }.awaitDispose k b next) := by
  have hcalls : ∀ c, ({ s with activeBackend := none }.awaitDispose k b next).calls c =
      if c = s.callCount then some ⟨b, some k, none⟩ else s.calls c := calls_callDispose b (some k)
  refine ⟨(h.queues_setPhase hbusy (.waitDispose s.callCount next)).frame rfl rfl rfl,
    (h.chain_setPhase hbusy (.waitDispose s.callCount next)).frame rfl rfl rfl rfl fun _ _ => rfl,
    ⟨?_, nofun, ?_, fun _ => h.calls_fresh, fun _ _ => h.callee hcreated, ?_,
      h.backends.checking⟩, ⟨h.closing.closed, h.closing.late⟩⟩
  · intro j
    have hlocal := h.backends.locals j
    by_cases hj : j = k
    · subst hj
      have hself : ({ s with activeBackend := none }.awaitDispose j b next).activations j =
          { s.activations j with phase := .waitDispose s.callCount next } := setPhase_self _
      rw [hself]
      refine ⟨?_, ?_, nofun, ?_⟩
      · intro hphase
        cases next with
        | immediate previous => exact absurd rfl (hnext previous)
        | previous => exact hbefore rfl
        | failed error | superseded => exact hphase.elim
      · intro p hp
        cases next with
        | immediate previous => exact absurd rfl (hnext previous)
        | previous | failed error | superseded => cases hp
      · intro c call hcall howner hresult
        rw [hcalls] at hcall
        split at hcall
        · next hc => exact hc.symm
        · have hsome := h.settled_of_not_awaits hnone hcall howner
          rw [hresult] at hsome
          cases hsome
    · have hother : ({ s with activeBackend := none }.awaitDispose k b next).activations j =
          s.activations j := setPhase_of_ne hj _
      rw [hother]
      refine hlocal.frame id (fun _ => id) fun c call hcall howner _ => ?_
      rw [hcalls] at hcall
      split at hcall
      · cases hcall
        cases howner
        exact absurd rfl hj
      · exact hcall
  · intro other hother
    right
    rcases h.backends.released other hother with hwas | hwas
    · obtain rfl := hactive other hwas
      exact disposeCalled_callDispose other (some k)
    · exact h.disposeCalled hwas
  · intro c call hcall howner
    rw [hcalls] at hcall
    split at hcall
    · cases hcall
      cases howner
    · exact h.backends.unowned c call hcall howner

end

/-! ## §3 Between two awaits -/

lemma Invariant.not_awaits_running (hrunning : (s.activations k).phase = .running) (c : ℕ) :
    ¬ (s.activations k).Awaits c := by
  rw [Activation.Awaits, hrunning]
  exact fun h => h

section

variable (h : Invariant s)

include h

section

variable (hrunning : (s.activations k).phase = .running)

include hrunning

/-- Where an activation that runs has not been superseded, all disposals have settled. -/
theorem Invariant.all_settled (hlatest : ¬ s.Superseded k) :
    s.closed = false ∧ k = s.activation ∧
      ∀ c call, s.calls c = some call → call.result.isSome = true := by
  obtain ⟨hopen, hepoch⟩ := not_or.mp hlatest
  have hopen : s.closed = false := by simpa using hopen
  obtain ⟨hbusy, -⟩ := busy_of_running hrunning
  have hk : k = s.activation := by
    have hle := h.chain.le_of_busy hbusy
    rw [← h.chain.epochs hopen, ← not_not.mp hepoch, h.chain.epoch k hle]
  refine ⟨hopen, hk, fun c call hcall => ?_⟩
  cases howner : call.owner with
  | none => exact absurd (hopen.symm.trans (h.backends.unowned c call hcall howner)) (by decide)
  | some j =>
    refine h.settled_of_not_awaits (fun c' => ?_) hcall howner
    rcases Nat.lt_trichotomy j k with hlt | rfl | hlt
    · -- earlier activations have come to their end
      obtain ⟨result, hresult⟩ :=
        h.chain.below hlt hk.le (by rw [hrunning]; exact nofun)
      rw [Activation.Awaits, hresult]
      exact fun h => h
    · exact not_awaits_running hrunning c'
    · obtain ⟨-, result, hresult⟩ := h.chain.later j (hk ▸ hlt)
      rw [Activation.Awaits, hresult]
      exact fun h => h

/-- The backend of the latest activation, when all disposals have settled. -/
theorem Invariant.created (hopen : s.closed = false) (hk : k = s.activation)
    (hsettled : ∀ c call, s.calls c = some call → call.result.isSome = true)
    (identity : BackendIdentity) :
    Invariant ({ s with
      nextInstance := s.nextInstance + 1
      backends := update s.backends k (some ⟨identity, none⟩)
      activeBackend := some k }.setPhase k .initializing) := by
  obtain ⟨hbusy, hbefore⟩ := busy_of_running hrunning
  have hidle := h.idle_of_before hbusy hbefore
  have huncreated := (h.backends.locals k).uncreated hbefore
  have hqueues := h.queues_setPhase hbusy .initializing
  have hchain := h.chain_setPhase hbusy .initializing
  generalize ht : ({ s with
    nextInstance := s.nextInstance + 1
    backends := update s.backends k (some ⟨identity, none⟩)
    activeBackend := some k } : Manager Error).setPhase k .initializing = t
  have hactivations : t.activations = (s.setPhase k .initializing).activations := by
    rw [← ht]
    rfl
  have hrest : t.activation = s.activation ∧ t.closed = s.closed ∧
      t.activationEpoch = s.activationEpoch ∧
      t.currents = s.currents ∧ t.calls = s.calls ∧ t.callCount = s.callCount ∧
      t.disposal = s.disposal ∧ t.activeBackend = some k := by
    rw [← ht]
    exact ⟨rfl, rfl, rfl, rfl, rfl, rfl, rfl, rfl⟩
  obtain ⟨hactivation, hclosed, hepochs, hcurrents, hcalls, hcallCount, hdisposal, hactive⟩ :=
    hrest
  have hother : ∀ j, j ≠ k → t.backends j = s.backends j := fun j hj => by
    rw [← ht]
    exact update_of_ne hj ..
  have hself : t.backends k = some ⟨identity, none⟩ := by
    rw [← ht]
    exact update_self ..
  have hinitialized : ∀ b, s.Initialized b → t.Initialized b := by
    rintro b ⟨found, hb⟩
    have hne : b ≠ k := by
      rintro rfl
      rw [huncreated] at hb
      cases hb
    exact ⟨found, (hother b hne).trans hb⟩
  have hcreated : ∀ b, s.Created b → t.Created b := by
    intro b hb
    by_cases hbk : b = k
    · rw [Created, hbk, hself]
      rfl
    · rw [Created, hother b hbk]
      exact hb
  have hcalled : ∀ b, t.DisposeCalled b ↔ s.DisposeCalled b := fun b => by
    rw [DisposeCalled, DisposeCalled, hcalls]
  refine ⟨?_, ?_, ⟨?_, ?_, ?_, ?_, ?_, ?_, ?_⟩, ⟨?_, ?_⟩⟩
  · exact hqueues.frame hactivations hactivation hclosed
  · refine hchain.frame hactivations hactivation hclosed hepochs fun j hj => ?_
    have hlt : s.activation < j := hj
    exact hother j (by omega)
  · intro j
    have hlocal := h.backends.locals j
    rw [hactivations]
    by_cases hj : j = k
    · rw [hj, setPhase_self]
      refine ⟨fun hbefore => hbefore.elim, nofun, nofun, fun c call hcall _ hnone => ?_⟩
      have hsome := hsettled c call (hcalls ▸ hcall)
      rw [hnone] at hsome
      cases hsome
    · rw [setPhase_of_ne hj]
      exact hlocal.frame (hother j hj).trans hinitialized fun c call hcall _ _ => hcalls ▸ hcall
  · intro b hb
    rw [hactive] at hb
    cases hb
    refine ⟨hk.trans hactivation.symm, hclosed.trans hopen, ?_, ?_, ?_⟩
    · rw [Created, hself]
      rfl
    · left
      rw [hactivations, setPhase_self]
    · rw [hcalled]
      rintro ⟨c, call, hcall, hb⟩
      have hwas := h.backends.callee c call hcall
      rw [hb, Created, huncreated] at hwas
      cases hwas
  · intro b hb
    by_cases hbk : b = k
    · left
      rw [hactive, hbk]
    · right
      rw [Created, hother b hbk] at hb
      rcases h.backends.released b hb with hwas | hwas
      · rw [hidle] at hwas
        cases hwas
      · exact (hcalled b).mpr hwas
  · intro c hc
    rw [hcalls]
    exact h.backends.calls c (hcallCount ▸ hc)
  · intro c call hcall
    exact hcreated _ (h.backends.callee c call (hcalls ▸ hcall))
  · intro c call hcall howner
    exact hclosed.trans (h.backends.unowned c call (hcalls ▸ hcall) howner)
  · intro c b hc
    exact hinitialized b (h.backends.checking c b (hcurrents ▸ hc))
  · intro hd
    exact hclosed.trans (h.closing.closed (hdisposal ▸ hd))
  · intro active b hd
    exact hcreated b (h.closing.late active b (hdisposal ▸ hd))

lemma Invariant.create (factory : Option Error) : Invariant (s.create k factory) := by
  obtain ⟨hbusy, hbefore⟩ := busy_of_running hrunning
  have hidle := h.idle_of_before hbusy hbefore
  have hcalls : ∀ c call, s.calls c = some call → call.owner = some k →
      call.result.isSome = true := fun c call =>
    h.settled_of_not_awaits (not_awaits_running hrunning)
  unfold Manager.create
  split
  · exact h.reject hbusy (by simp [hidle]) hcalls _
  · next hlatest =>
    obtain ⟨hopen, hk, hsettled⟩ := h.all_settled hrunning hlatest
    cases factory with
    | some error =>
      have hcounted : Invariant { s with nextInstance := s.nextInstance + 1 } :=
        h.setCurrents h.backends.checking
      exact hcounted.reject hbusy (by simp [hidle]) hcalls _
    | none =>
      exact h.created hrunning hopen hk hsettled _

lemma Invariant.disposePrevious (hprevious : ∀ b, previous = some b → s.Initialized b)
    (factory : Option Error) : Invariant (s.disposePrevious k previous factory) := by
  unfold Manager.disposePrevious
  split
  · next backend =>
    split
    · obtain ⟨hbusy, hbefore⟩ := busy_of_running hrunning
      have hidle := h.idle_of_before hbusy hbefore
      have hsame : { s with activeBackend := none } = s := by
        rw [← hidle]
      have hnext := h.awaitDispose hbusy (not_awaits_running hrunning)
        (Created.of_initialized (hprevious backend rfl)) (by simp [hidle]) .previous (by simp)
        fun _ => (h.backends.locals k).uncreated hbefore
      rwa [hsame] at hnext
    · exact h.create hrunning factory
  · exact h.create hrunning factory

end

/-- An activation that awaits nothing unsettled runs. -/
theorem Invariant.run (hbusy : (s.activations k).phase.Busy)
    (hbefore : (s.activations k).phase.Before)
    (hcalls : ∀ c call, s.calls c = some call → call.owner = some k → call.result.isSome = true) :
    Invariant (s.setPhase k .running) := by
  apply h.setPhase hbusy
  · refine ⟨fun _ => (h.backends.locals k).uncreated hbefore, nofun, nofun, ?_⟩
    intro c call hcall howner hnone
    have hsome := hcalls c call hcall howner
    rw [hnone] at hsome
    cases hsome
  · rw [h.idle_of_before hbusy hbefore]
    exact nofun

/-- A woken activation without a disposal of its own runs. -/
theorem Invariant.run_woken (hwoken : (s.activations k).phase = .woken previous)
    (himmediate : (s.activations k).immediateDisposal = none) :
    Invariant (s.setPhase k .running) := by
  refine h.run (by rw [hwoken]; trivial) (by rw [hwoken]; trivial) fun c call hcall howner => ?_
  refine h.settled_of_not_awaits (fun c' hc' => ?_) hcall howner
  rw [Activation.Awaits, hwoken, himmediate] at hc'
  cases hc'

lemma Invariant.afterPrior (hwoken : (s.activations k).phase = .woken previous)
    (factory : Option Error) : Invariant (s.afterPrior k previous factory) := by
  have hbusy : (s.activations k).phase.Busy := by
    rw [hwoken]
    trivial
  have hbefore : (s.activations k).phase.Before := by
    rw [hwoken]
    trivial
  have hlocal := h.backends.locals k
  have hprevious : ∀ b, previous = some b → s.Initialized b := by
    intro b hb
    apply hlocal.previous
    rw [hwoken]
    exact hb
  have hawaits : ∀ c, (s.activations k).Awaits c →
      (s.activations k).immediateDisposal = some c := by
    intro c hc
    rw [Activation.Awaits, hwoken] at hc
    exact hc
  unfold Manager.afterPrior
  split
  · next call himmediate =>
    apply h.setPhase hbusy
    · refine ⟨fun _ => hlocal.uncreated hbefore, hprevious, nofun, ?_⟩
      intro c other hcall howner hnone
      have hc := hawaits c (hlocal.awaited c other hcall howner hnone)
      exact Option.some.inj (himmediate.symm.trans hc)
    · rw [h.idle_of_before hbusy hbefore]
      exact nofun
  · next himmediate =>
    exact (h.run_woken hwoken himmediate).disposePrevious (by rw [setPhase_self]) hprevious factory

variable {next : AfterDispose Error}

/-- The activation's own backend is given up. -/
theorem Invariant.discard (hphase : (s.activations k).phase = .initializing)
    (hcreated : s.Created k) (hnext : ∀ previous, next ≠ .immediate previous)
    (hnot : next ≠ .previous) : Invariant (s.discard k next) := by
  have hbusy : (s.activations k).phase.Busy := by
    rw [hphase]
    trivial
  have hactive : (if s.activeBackend = some k then none else s.activeBackend) = none := by
    split
    · rfl
    · next hne =>
      cases hother : s.activeBackend with
      | none => rfl
      | some b => exact absurd (h.active_of_busy hbusy hother ▸ hother) hne
  rw [Manager.discard, hactive]
  refine h.awaitDispose hbusy (fun c => ?_) hcreated (fun b => h.active_of_busy hbusy) next hnext
    fun heq => absurd heq hnot
  rw [Activation.Awaits, hphase]
  exact fun h => h

variable {result : Except Error Unit}

lemma Invariant.afterInitialize (hphase : (s.activations k).phase = .initializing)
    (hresult : (s.backends k).bind (·.initialization) = some result) :
    Invariant (s.afterInitialize k result) := by
  obtain ⟨⟨identity, initialization⟩, hbackend, hinitialization⟩ :=
    Option.bind_eq_some_iff.mp hresult
  have hcreated : s.Created k := by
    rw [Created, hbackend]
    rfl
  unfold Manager.afterInitialize
  split
  · exact h.discard hphase hcreated (by simp) (by simp)
  · split
    · exact h.discard hphase hcreated (by simp) (by simp)
    · have hbusy : (s.activations k).phase.Busy := by
        rw [hphase]
        trivial
      apply h.setPhase hbusy
      · refine ⟨fun hbefore => hbefore.elim, nofun, ?_, ?_⟩
        · intro b hb
          cases hb
          exact ⟨rfl, identity, hbackend.trans (congrArg some (by rw [← hinitialization]))⟩
        · intro c call hcall howner hnone
          have hawaits := (h.backends.locals k).awaited c call hcall howner hnone
          rw [Activation.Awaits, hphase] at hawaits
          exact hawaits.elim
      · exact fun _ => .inr rfl

/-- The disposal an activation has awaited is the only one of its own that could be unsettled. -/
theorem Invariant.settled_of_awaited {call : ℕ}
    (hphase : (s.activations k).phase = .waitDispose call next)
    (hresult : (s.calls call).bind (·.result) = some result) (c : ℕ) (other : DisposeCall Error)
    (hcall : s.calls c = some other) (howner : other.owner = some k) :
    other.result.isSome = true := by
  obtain ⟨found, hfound, hsettled⟩ := Option.bind_eq_some_iff.mp hresult
  cases hother : other.result with
  | some _ => rfl
  | none =>
    have hawaits := (h.backends.locals k).awaited c other hcall howner hother
    rw [Activation.Awaits, hphase] at hawaits
    obtain rfl : call = c := hawaits
    rw [hfound] at hcall
    cases hcall
    rw [hsettled] at hother
    cases hother

lemma Invariant.afterDispose {call : ℕ}
    (hphase : (s.activations k).phase = .waitDispose call next)
    (hresult : (s.calls call).bind (·.result) = some result) (factory : Option Error) :
    Invariant (s.afterDispose k next result factory) := by
  have hbusy : (s.activations k).phase.Busy := by
    rw [hphase]
    trivial
  have hcalls := h.settled_of_awaited hphase hresult
  have hidle : s.activeBackend ≠ some k := by
    intro hactive
    obtain ⟨-, -, -, hwas, -⟩ := h.backends.active k hactive
    rw [hphase] at hwas
    rcases hwas with hwas | hwas <;> cases hwas
  unfold Manager.afterDispose
  split
  · exact h.reject hbusy hidle hcalls _
  · split
    · next previous =>
      have hrun := h.run hbusy (by rw [hphase]; trivial) hcalls
      refine hrun.disposePrevious (by rw [setPhase_self]) (fun b hb => ?_) factory
      apply (h.backends.locals k).previous
      rw [hphase]
      exact hb
    · have hrun := h.run hbusy (by rw [hphase]; trivial) hcalls
      exact hrun.create (by rw [setPhase_self]) factory
    · split
      · exact h.reject hbusy hidle hcalls _
      · exact h.reject hbusy hidle hcalls _
    · exact h.reject hbusy hidle hcalls _

lemma Invariant.resume {factory : Option Error} (hstep : s.resume k factory = some t) :
    Invariant t := by
  unfold Manager.resume at hstep
  split at hstep
  · next previous hwoken =>
    cases hstep
    exact h.afterPrior hwoken factory
  · next call next hphase =>
    obtain ⟨result, hresult, rfl⟩ := Option.map_eq_some_iff.mp hstep
    exact h.afterDispose hphase hresult factory
  · next hphase =>
    obtain ⟨result, hresult, rfl⟩ := Option.map_eq_some_iff.mp hstep
    exact h.afterInitialize hphase hresult
  · cases hstep

end

end Lemmas

end Manager

end Kwiry.Plugin.Switching
