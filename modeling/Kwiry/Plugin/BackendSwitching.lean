import Kwiry.Foundations.Traces
import Kwiry.Plugin.BackendActivations

/-!
# Backends Never Overlap

The other steps of the manager: completions, those who wait for an activation, and the manager's own
calls. In every run a backend is created only when those before it have been disposed of.
-/

namespace Kwiry.Plugin.Switching

open Foundations List Option Function

variable {Error : Type}

namespace Manager

section Lemmas

variable {s t : Manager Error} {k : ℕ}

/-! ## §1 Completions -/

variable {b c call : ℕ}

lemma Invariant.initialized (h : Invariant s) {identity : BackendIdentity}
    (hb : s.backends b = some ⟨identity, none⟩) (result : Except Error Unit) :
    Invariant { s with
      backends := update s.backends b (some ⟨identity, some result⟩) } := by
  have hcreated : ∀ j, ({ s with
      backends := update s.backends b (some ⟨identity, some result⟩) }).Created j ↔
      s.Created j := by
    intro j
    by_cases hj : j = b
    · subst hj
      simp [Created, hb]
    · simp [Created, update_of_ne hj]
  have hnone : ∀ j, s.backends j = none →
      update s.backends b (some ⟨identity, some result⟩) j = none := by
    intro j hj
    have hne : j ≠ b := by
      rintro rfl
      rw [hb] at hj
      cases hj
    rw [update_of_ne hne, hj]
  have hinitialized : ∀ j, s.Initialized j → ({ s with
      backends := update s.backends b (some ⟨identity, some result⟩) }).Initialized j := by
    rintro j ⟨found, hj⟩
    have hne : j ≠ b := by
      rintro rfl
      rw [hb] at hj
      cases hj
    exact ⟨found, (update_of_ne hne ..).trans hj⟩
  refine ⟨h.queues.frame rfl rfl rfl, h.chain.frame rfl rfl rfl rfl fun j hj => ?_,
    ⟨fun j => (h.backends.locals j).frame (hnone j) hinitialized fun _ _ hc _ _ => hc, ?_, ?_,
      h.backends.calls, ?_, h.backends.unowned, ?_⟩, ⟨h.closing.closed, ?_⟩⟩
  · have hj := (h.chain.later j hj).1
    exact (hnone j hj).trans hj.symm
  · intro j hj
    obtain ⟨hlatest, hopen, hwas, hphase⟩ := h.backends.active j hj
    exact ⟨hlatest, hopen, (hcreated j).mpr hwas, hphase⟩
  · exact fun j hj => h.backends.released j ((hcreated j).mp hj)
  · exact fun c call hcall => (hcreated _).mpr (h.backends.callee c call hcall)
  · exact fun c j hj => hinitialized j (h.backends.checking c j hj)
  · exact fun active j hj => (hcreated j).mpr (h.closing.late active j hj)

lemma Invariant.disposed (h : Invariant s) {owner : Option ℕ}
    (hc : s.calls c = some ⟨b, owner, none⟩) (result : Except Error Unit) :
    Invariant { s with calls := update s.calls c (some ⟨b, owner, some result⟩) } := by
  have hcalls : ∀ c' call, update s.calls c (some ⟨b, owner, some result⟩) c' =
      some call → ∃ was, s.calls c' = some was ∧ was.backend = call.backend ∧
        was.owner = call.owner ∧ (call.result = none → was = call) := by
    intro c' call hcall
    by_cases hc' : c' = c
    · subst hc'
      rw [update_self] at hcall
      cases hcall
      exact ⟨_, hc, rfl, rfl, nofun⟩
    · rw [update_of_ne hc'] at hcall
      exact ⟨call, hcall, rfl, rfl, fun _ => rfl⟩
  have hcalled : ∀ j, ({ s with
      calls := update s.calls c (some ⟨b, owner, some result⟩) }).DisposeCalled j ↔
      s.DisposeCalled j := by
    intro j
    constructor
    · rintro ⟨c', call, hcall, hj⟩
      obtain ⟨was, hwas, hbackend, -⟩ := hcalls c' call hcall
      exact ⟨c', was, hwas, hbackend.trans hj⟩
    · rintro ⟨c', call, hcall, hj⟩
      by_cases hc' : c' = c
      · subst hc'
        rw [hc] at hcall
        cases hcall
        exact ⟨c', _, update_self .., hj⟩
      · exact ⟨c', call, (update_of_ne hc' ..).trans hcall, hj⟩
  refine ⟨h.queues.frame rfl rfl rfl, h.chain.frame rfl rfl rfl rfl fun _ _ => rfl,
    ⟨?_, ?_, ?_, ?_, ?_, ?_, h.backends.checking⟩, ⟨h.closing.closed, h.closing.late⟩⟩
  · refine fun j => (h.backends.locals j).frame id (fun _ => id) fun c' call hcall _ hnone => ?_
    obtain ⟨was, hwas, -, -, hsame⟩ := hcalls c' call hcall
    obtain rfl := hsame hnone
    exact hwas
  · intro j hj
    obtain ⟨hlatest, hopen, hcreated, hphase, hnot⟩ := h.backends.active j hj
    exact ⟨hlatest, hopen, hcreated, hphase, mt (hcalled j).mp hnot⟩
  · intro j hj
    exact (h.backends.released j hj).imp_right (hcalled j).mpr
  · intro c' hc'
    have hne : c' ≠ c := by
      rintro rfl
      rw [h.backends.calls c' hc'] at hc
      cases hc
    exact (update_of_ne hne ..).trans (h.backends.calls c' hc')
  · intro c' call hcall
    obtain ⟨was, hwas, hbackend, -⟩ := hcalls c' call hcall
    exact hbackend ▸ h.backends.callee c' was hwas
  · intro c' call hcall howner
    obtain ⟨was, hwas, -, hwasOwner, -⟩ := hcalls c' call hcall
    exact h.backends.unowned c' was hwas (hwasOwner.trans howner)

lemma Invariant.setDisposal (h : Invariant s) (hclosed : s.closed = true) (active : Option ℕ)
    (phase : DisposalPhase Error) (hlate : ∀ b, phase = .woken (some b) → s.Created b) :
    Invariant (s.setDisposal active phase) :=
  ⟨h.queues.frame rfl rfl rfl, h.chain.frame rfl rfl rfl rfl fun _ _ => rfl,
    ⟨fun j => (h.backends.locals j).same rfl rfl, h.backends.active, h.backends.released,
      h.backends.calls, h.backends.callee, h.backends.unowned, h.backends.checking⟩,
    ⟨fun _ => hclosed, fun _ b hb => hlate b (by cases hb; rfl)⟩⟩

lemma Invariant.check (h : Invariant s) (hstep : s.check call = some t) : Invariant t := by
  unfold Manager.check at hstep
  split at hstep
  · cases hstep
    apply h.setCurrents
    intro c b hc
    by_cases hcc : c = call
    · rw [hcc, update_self] at hc
      split at hc
      · cases hc
      · split at hc
        · cases hc
        · split at hc <;> cases hc
    · exact h.backends.checking c b ((update_of_ne hcc ..).symm.trans hc)
  · cases hstep

/-! ## §2 Queues -/

section

variable (h : Invariant s)

include h

/-- Only the waiters of one activation change. -/
theorem Invariant.setWaiters {waiters : List Waiter} (hwaiter : ∀ j, .activation j ∈ waiters →
      j = k + 1 ∧ k < s.activation ∧ (s.activations j).phase = .waitPrior)
    (honce : waiters.Pairwise fun x y => ∀ j, x = .activation j → y ≠ .activation j)
    (horder : waiters.Pairwise fun x y => y.IsCurrent → x.IsCurrent)
    (hdisposal : .disposal ∈ waiters → s.closed = true)
    (hinLine : ∀ c, .current c ∈ waiters → k < s.activation →
      (s.activations (k + 1)).phase = .waitPrior)
    (hcalled : ∀ c, .current c ∈ waiters → k ≤ s.activation) :
    Invariant (s.setActivation k { s.activations k with waiters := waiters }) := by
  have hphase : ∀ j, ((s.setActivation k { s.activations k with
      waiters := waiters }).activations j).phase = (s.activations j).phase :=
    setActivation_kept Activation.phase rfl
  -- the waiters of the activation are new, and those of the others are as they were
  have hboth : ∀ {P : ℕ → List Waiter → Prop}, P k waiters →
      (∀ j, P j (s.activations j).waiters) → ∀ j, P j ((s.setActivation k { s.activations k with
        waiters := waiters }).activations j).waiters := by
    intro P hnew hold j
    change P j (update s.activations k _ j).waiters
    by_cases hj : j = k
    · rw [hj, update_self]
      exact hnew
    · rw [update_of_ne hj]
      exact hold j
  refine ⟨⟨?_, hboth honce h.queues.once, hboth horder h.queues.order,
    hboth (P := fun _ ws => .disposal ∈ ws → s.closed = true) hdisposal h.queues.disposal, ?_,
    hboth (P := fun j ws => ∀ c, .current c ∈ ws → j ≤ s.activation) hcalled h.queues.called⟩, ?_,
    ⟨fun j => ?_, ?_, h.backends.released, h.backends.calls, h.backends.callee,
      h.backends.unowned, h.backends.checking⟩, ⟨h.closing.closed, h.closing.late⟩⟩
  · simp only [hphase]
    exact hboth (P := fun j ws => ∀ i, .activation i ∈ ws →
      i = j + 1 ∧ j < s.activation ∧ (s.activations i).phase = .waitPrior) hwaiter h.queues.waiter
  · simp only [hphase]
    exact hboth (P := fun j ws => ∀ c, .current c ∈ ws → j < s.activation →
      (s.activations (j + 1)).phase = .waitPrior) hinLine h.queues.inLine
  · exact h.chain.congr rfl rfl rfl (setActivation_kept Activation.epoch rfl)
      (fun j hj => by rwa [hphase] at hj) (fun j result hj => ⟨result, by rw [hphase, hj]⟩)
      fun _ _ => rfl
  · have hlocal := h.backends.locals j
    change Local _ j (update s.activations k _ j)
    by_cases hj : j = k
    · subst hj
      rw [update_self]
      exact Local.same ⟨hlocal.uncreated, hlocal.previous, hlocal.fulfilled, hlocal.awaited⟩ rfl rfl
    · rw [update_of_ne hj]
      exact hlocal.same rfl rfl
  · intro b hb
    obtain ⟨hlatest, hopen, hcreated, hwas, hcalled⟩ := h.backends.active b hb
    exact ⟨hlatest, hopen, hcreated, by rwa [hphase], hcalled⟩

/-- The first waiter goes on. -/
theorem Invariant.pop {waiter : Waiter} {rest : List Waiter}
    (hwaiters : (s.activations k).waiters = waiter :: rest) :
    Invariant (s.setActivation k { s.activations k with waiters := rest }) := by
  have hmem : ∀ w ∈ rest, w ∈ (s.activations k).waiters := fun w hw => by
    rw [hwaiters]
    exact mem_cons_of_mem _ hw
  have honce := h.queues.once k
  have horder := h.queues.order k
  rw [hwaiters] at honce horder
  exact h.setWaiters (fun j hj => h.queues.waiter k j (hmem _ hj))
    (pairwise_cons.mp honce).2 (pairwise_cons.mp horder).2
    (fun hd => h.queues.disposal k (hmem _ hd)) (fun c hc => h.queues.inLine k c (hmem _ hc))
    fun c hc => h.queues.called k c (hmem _ hc)

/-- Someone asks for an activation after those that have asked. -/
theorem Invariant.wait {waiter : Waiter}
    (hwaiter : ∀ j, waiter = .activation j → j = k + 1 ∧ k < s.activation ∧
      (s.activations j).phase = .waitPrior ∧ waiter ∉ (s.activations k).waiters)
    (hcurrent : waiter.IsCurrent → k = s.activation ∧ .disposal ∉ (s.activations k).waiters)
    (hdisposal : waiter = .disposal → s.closed = true) : Invariant (s.wait k waiter) := by
  apply h.setWaiters
  · intro j hj
    rcases mem_append.mp hj with hj | hj
    · exact h.queues.waiter k j hj
    · obtain ⟨hnext, hlt, hwait, -⟩ := hwaiter j (mem_singleton.mp hj).symm
      exact ⟨hnext, hlt, hwait⟩
  · refine pairwise_append.mpr ⟨h.queues.once k, pairwise_singleton _ _, ?_⟩
    intro x hx y hy j hxj hyj
    rw [mem_singleton.mp hy] at hyj
    exact (hwaiter j hyj).2.2.2 (hyj ▸ hxj ▸ hx)
  · refine pairwise_append.mpr ⟨h.queues.order k, pairwise_singleton _ _, ?_⟩
    intro x hx y hy hy'
    rw [mem_singleton.mp hy] at hy'
    obtain ⟨hk, hopen⟩ := hcurrent hy'
    cases x with
    | current c => trivial
    | activation j => exact absurd (h.queues.waiter k j hx).2.1 (by omega)
    | disposal => exact absurd hx hopen
  · intro hd
    rcases mem_append.mp hd with hd | hd
    · exact h.queues.disposal k hd
    · exact hdisposal (mem_singleton.mp hd).symm
  · intro c hc hlt
    rcases mem_append.mp hc with hc | hc
    · exact h.queues.inLine k c hc hlt
    · obtain ⟨hk, -⟩ := hcurrent (by rw [← mem_singleton.mp hc]; trivial)
      omega
  · intro c hc
    rcases mem_append.mp hc with hc | hc
    · exact h.queues.called k c hc
    · obtain ⟨hk, -⟩ := hcurrent (by rw [← mem_singleton.mp hc]; trivial)
      exact hk.le

/-- While a call of `current` waits for an activation that has been rejected, no backend is active:
a later activation has not gone on yet. -/
theorem Invariant.idle_of_waiting (hwaits : .current c ∈ (s.activations k).waiters)
    {failure : Failure Error} (hphase : (s.activations k).phase = .settled (.error failure)) :
    s.activeBackend = none := by
  cases hactive : s.activeBackend with
  | none => rfl
  | some b =>
    obtain ⟨hb, -, -, hwas, -⟩ := h.backends.active b hactive
    have hle := h.queues.called k c hwaits
    rcases Nat.lt_or_eq_of_le hle with hlt | heq
    · -- the next activation still waits, so no later one has created a backend
      have hnext := h.queues.inLine k c hwaits hlt
      rcases Nat.lt_or_eq_of_le (show k + 1 ≤ b by omega) with hafter | rfl
      · have hgone : (s.activations b).phase ≠ .waitPrior := by
          rcases hwas with hwas | hwas <;> simp [hwas]
        obtain ⟨result, hresult⟩ := h.chain.below hafter hb.le hgone
        rw [hresult] at hnext
        cases hnext
      · rw [hnext] at hwas
        rcases hwas with hwas | hwas <;> cases hwas
    · rw [hb, ← heq, hphase] at hwas
      rcases hwas with hwas | hwas <;> cases hwas

/-- The next activation is woken. -/
theorem Invariant.wake {next : ℕ} (hnext : next = k + 1) (hlt : k < s.activation)
    (hphase : (s.activations next).phase = .waitPrior)
    (hsettled : ∃ result, (s.activations k).phase = .settled result)
    (hline : ∀ c, .current c ∉ (s.activations k).waiters)
    (hwaits : .activation next ∉ (s.activations k).waiters) {value : Option ℕ}
    (hvalue : ∀ b, value = some b → s.Initialized b) :
    Invariant (s.setPhase next (.woken value)) := by
  have hkeep : ∀ j, j ≠ next →
      ((s.setPhase next (.woken value)).activations j) = s.activations j := fun j hj =>
    setPhase_of_ne hj _
  refine ⟨⟨?_, ?_, ?_, ?_, ?_, ?_⟩, ?_, ⟨?_, ?_, h.backends.released, h.backends.calls,
    h.backends.callee, h.backends.unowned, h.backends.checking⟩,
    ⟨h.closing.closed, h.closing.late⟩⟩
  · intro j i hmem
    rw [setPhase_waiters] at hmem
    obtain ⟨hi, hj, hwait⟩ := h.queues.waiter j i hmem
    refine ⟨hi, hj, ?_⟩
    have hne : i ≠ next := by
      rintro rfl
      obtain rfl : j = k := by omega
      exact hwaits hmem
    rw [hkeep i hne, hwait]
  · exact fun j => by rw [setPhase_waiters]; exact h.queues.once j
  · exact fun j => by rw [setPhase_waiters]; exact h.queues.order j
  · exact fun j hmem => h.queues.disposal j (by rwa [setPhase_waiters] at hmem)
  · intro j c hmem hj
    rw [setPhase_waiters] at hmem
    have hne : j + 1 ≠ next := by
      intro heq
      obtain rfl : j = k := by omega
      exact hline c hmem
    rw [hkeep _ hne]
    exact h.queues.inLine j c hmem hj
  · exact fun j c hmem => h.queues.called j c (by rwa [setPhase_waiters] at hmem)
  · refine ⟨h.chain.epochs, fun j hj => ?_, fun j hj hgone => ?_, fun j hj => ?_⟩
    · rw [setPhase_epoch]
      exact h.chain.epoch j hj
    · have hresult : ∃ result, (s.activations j).phase = .settled result := by
        by_cases hj' : j + 1 = next
        · obtain rfl : j = k := by omega
          exact hsettled
        · rw [hkeep _ hj'] at hgone
          exact h.chain.chain j hj hgone
      obtain ⟨result, hresult⟩ := hresult
      have hne : j ≠ next := by
        rintro rfl
        rw [hphase] at hresult
        cases hresult
      exact ⟨result, by rw [hkeep j hne, hresult]⟩
    · have hactivation : s.activation < j := hj
      rw [hkeep j (by omega)]
      exact h.chain.later j hj
  · intro j
    have hlocal := h.backends.locals j
    by_cases hj : j = next
    · subst hj
      rw [setPhase_self]
      refine ⟨fun _ => hlocal.uncreated (by rw [hphase]; trivial), hvalue, nofun, ?_⟩
      intro c call hcall howner hnone
      have hawaits := hlocal.awaited c call hcall howner hnone
      rw [Activation.Awaits, hphase] at hawaits
      exact hawaits
    · rw [hkeep j hj]
      exact hlocal.same rfl rfl
  · intro b hb
    obtain ⟨hlatest, hopen, hcreated, hwas, hcalled⟩ := h.backends.active b hb
    have hne : b ≠ next := by
      rintro rfl
      rw [hphase] at hwas
      rcases hwas with hwas | hwas <;> cases hwas
    exact ⟨hlatest, hopen, hcreated, by rwa [hkeep b hne], hcalled⟩

lemma Invariant.react (hstep : s.react k = some t) : Invariant t := by
  unfold Manager.react at hstep
  split at hstep
  · next result waiter rest hphase hwaiters =>
    have hpop := h.pop hwaiters
    have hself : (s.setActivation k { s.activations k with waiters := rest }).activations k =
        { s.activations k with waiters := rest } := update_self ..
    have honce := h.queues.once k
    have horder := h.queues.order k
    rw [hwaiters] at honce horder
    have hmem : waiter ∈ (s.activations k).waiters := by
      rw [hwaiters]
      exact mem_cons_self
    have hfulfilled : ∀ b, result = .ok (some b) → s.Initialized b := by
      intro b hb
      refine ((h.backends.locals k).fulfilled b ?_).2
      rw [hphase, hb]
    -- the value the waiters are given
    have hvalue : ∀ value : Option ℕ, (∀ backend, result = .ok backend → value = backend) →
        (∀ failure, result = .error failure → value = none) →
          ∀ b, value = some b → s.Initialized b := by
      intro value hok herror b hb
      cases result with
      | ok backend => exact hfulfilled b (congrArg Except.ok ((hok backend rfl).symm.trans hb))
      | error failure => cases (herror failure rfl).symm.trans hb
    cases waiter with
    | current call =>
      cases hstep
      refine hpop.setCurrents fun c b hc => ?_
      by_cases hcc : c = call
      · rw [hcc, update_self] at hc
        cases result with
        | ok backend =>
          cases hc
          exact hfulfilled b rfl
        | error failure =>
          have hidle := h.idle_of_waiting hmem hphase
          simp [hidle] at hc
      · exact h.backends.checking c b ((update_of_ne hcc ..).symm.trans hc)
    | activation next =>
      cases hstep
      obtain ⟨hnext, hlt, hwait⟩ := h.queues.waiter k next hmem
      have hother : (s.setActivation k { s.activations k with waiters := rest }).activations next =
          s.activations next := update_of_ne (by omega) ..
      refine hpop.wake hnext hlt (by rw [hother, hwait]) ⟨result, by rw [hself, hphase]⟩ ?_ ?_
        (hvalue _ (by rintro backend rfl; rfl) (by rintro failure rfl; rfl))
      · rw [hself]
        exact fun c hc => (pairwise_cons.mp horder).1 _ hc trivial
      · rw [hself]
        exact fun hmem => (pairwise_cons.mp honce).1 _ hmem next rfl rfl
    | disposal =>
      obtain ⟨d, hd, rfl⟩ := map_eq_some_iff.mp hstep
      refine hpop.setDisposal (h.queues.disposal k hmem) d.active _ fun b hb => ?_
      injection hb with hb
      refine Created.of_initialized (hvalue _ ?_ ?_ b hb)
      · rintro backend rfl
        rfl
      · rintro failure rfl
        rfl
  · cases hstep

end

/-! ## §3 Calls -/

lemma Invariant.current (h : Invariant s) : Invariant s.current := by
  have hset : ∀ outcome : Current Error, (∀ b, outcome ≠ .checking (some b)) → Invariant { s with
        currentCount := s.currentCount + 1
        currents := update s.currents s.currentCount (some outcome) } := by
    intro outcome houtcome
    refine h.setCurrents fun c b hc => ?_
    by_cases hcc : c = s.currentCount
    · rw [hcc, update_self] at hc
      injection hc with hc
      exact absurd hc (houtcome b)
    · exact h.backends.checking c b ((update_of_ne hcc ..).symm.trans hc)
  unfold Manager.current
  split
  · exact hset _ (by simp)
  · next hopen =>
    refine (hset .waiting (by simp)).wait ?_ ?_ ?_
    · exact nofun
    · exact fun _ => ⟨rfl, fun hmem => hopen (h.queues.disposal _ hmem)⟩
    · exact nofun

/-- The calls of `dispose` after that of the active backend. -/
theorem Invariant.disposeActive (h : Invariant s) (owner : Option ℕ) :
    (∀ c call, (s.disposeActive owner).calls c = some call → s.calls c = some call ∨
      c = s.callCount ∧ s.activeBackend = some call.backend ∧ call.owner = owner) ∧
    (∀ b, s.Created b → (s.disposeActive owner).DisposeCalled b) ∧
    (∀ c, (s.disposeActive owner).callCount ≤ c → (s.disposeActive owner).calls c = none) ∧
    (∀ c call, (s.disposeActive owner).calls c = some call → s.Created call.backend) := by
  cases hactive : s.activeBackend with
  | none =>
    have hsame : s.disposeActive owner = s := by rw [Manager.disposeActive, hactive]
    rw [hsame]
    refine ⟨fun c call hcall => .inl hcall, fun b hb => ?_, h.backends.calls, h.backends.callee⟩
    rcases h.backends.released b hb with hwas | hwas
    · rw [hactive] at hwas
      cases hwas
    · exact hwas
  | some active =>
    have hcall : s.disposeActive owner = s.callDispose active owner := by
      rw [Manager.disposeActive, hactive]
    rw [hcall]
    refine ⟨fun c call hcall => ?_, fun b hb => ?_, fun c => h.calls_fresh,
      fun c call => h.callee (h.backends.active active hactive).2.2.1⟩
    · rw [calls_callDispose] at hcall
      split at hcall
      · next hc =>
        cases hcall
        exact .inr ⟨hc, rfl, rfl⟩
      · exact .inl hcall
    · rcases h.backends.released b hb with hwas | hwas
      · rw [hactive] at hwas
        cases hwas
        exact disposeCalled_callDispose active owner
      · exact h.disposeCalled hwas

/-- What calling the active backend's `dispose` leaves. -/
theorem disposeActive_rest (owner : Option ℕ) :
    (s.disposeActive owner).activations = s.activations ∧
      (s.disposeActive owner).backends = s.backends ∧
      (s.disposeActive owner).currents = s.currents ∧
      (s.disposeActive owner).disposal = s.disposal ∧
      (s.disposeActive owner).closed = s.closed ∧
      (s.disposeActive owner).activation = s.activation := by
  unfold Manager.disposeActive
  split <;> exact ⟨rfl, rfl, rfl, rfl, rfl, rfl⟩

lemma nextActivation_self (s : Manager Error) (profile : BackendProfile) :
    (s.nextActivation profile).activations (s.activation + 1) =
      { profile := profile, epoch := s.activationEpoch + 1, previousNow := s.activeBackend
        immediateDisposal := s.activeBackend.map fun _ => s.callCount
        phase := .waitPrior, waiters := [] } :=
  update_self ..

section

variable (h : Invariant s)

include h

lemma Invariant.nextActivation (hopen : s.closed = false) (profile : BackendProfile) :
    Invariant (s.nextActivation profile) := by
  obtain ⟨hcalls, hcalled, hfresh, hcallee⟩ := h.disposeActive (some (s.activation + 1))
  obtain ⟨hactivations, hbackends, hcurrents, hdisposal, hclosed, -⟩ :=
    disposeActive_rest (s := s) (some (s.activation + 1))
  have hself := s.nextActivation_self profile
  have hother : ∀ j, j ≠ s.activation + 1 →
      (s.nextActivation profile).activations j = s.activations j := fun j hj =>
    (update_of_ne hj ..).trans (congrFun hactivations j)
  have hinitialized : ∀ b, s.Initialized b → (s.nextActivation profile).Initialized b := by
    rintro b ⟨identity, hb⟩
    exact ⟨identity, (congrFun hbackends b).trans hb⟩
  have hcreated : ∀ b, (s.nextActivation profile).Created b ↔ s.Created b := fun b => by
    show ((s.disposeActive _).backends b).isSome = true ↔ _
    rw [hbackends]
    rfl
  have hwaits : ∀ {j waiter}, waiter ∈ ((s.nextActivation profile).activations j).waiters →
      waiter ∈ (s.activations j).waiters := by
    intro j waiter hmem
    by_cases hj : j = s.activation + 1
    · rw [hj, hself] at hmem
      cases hmem
    · rwa [hother j hj] at hmem
  refine ⟨⟨?_, ?_, ?_, fun j hmem => hclosed.trans (h.queues.disposal j (hwaits hmem)), ?_,
    fun j c hmem => Nat.le_succ_of_le (h.queues.called j c (hwaits hmem))⟩, ⟨?_, ?_, ?_, ?_⟩,
    ⟨?_, nofun, ?_, hfresh, fun c call hcall => (hcreated _).mpr (hcallee c call hcall), ?_, ?_⟩,
    ⟨fun hd => ?_, fun active b hd => ?_⟩⟩
  · intro j next hmem
    obtain ⟨hnext, hlt, hwait⟩ := h.queues.waiter j next (hwaits hmem)
    refine ⟨hnext, Nat.lt_succ_of_lt hlt, ?_⟩
    rw [hother next (by omega), hwait]
  · intro j
    by_cases hj : j = s.activation + 1
    · rw [hj, hself]
      exact Pairwise.nil
    · rw [hother j hj]
      exact h.queues.once j
  · intro j
    by_cases hj : j = s.activation + 1
    · rw [hj, hself]
      exact Pairwise.nil
    · rw [hother j hj]
      exact h.queues.order j
  · intro j c hmem _
    rcases Nat.lt_or_eq_of_le (h.queues.called j c (hwaits hmem)) with hlt | rfl
    · rw [hother _ (by omega)]
      exact h.queues.inLine j c (hwaits hmem) hlt
    · rw [hself]
  · intro _
    exact congrArg (· + 1) (h.chain.epochs hopen)
  · intro j hj
    by_cases hj' : j = s.activation + 1
    · rw [hj', hself]
      exact congrArg (· + 1) (h.chain.epochs hopen)
    · rw [hother j hj']
      have hle : j ≤ s.activation + 1 := hj
      exact h.chain.epoch j (by omega)
  · intro j hj hgone
    have hlt : j < s.activation + 1 := hj
    rw [hother j (by omega)]
    by_cases hj' : j = s.activation
    · rw [hj', hself] at hgone
      exact absurd rfl hgone
    · rw [hother _ (by omega)] at hgone
      exact h.chain.chain j (by omega) hgone
  · intro j hj
    have hlt : s.activation + 1 < j := hj
    rw [hother j (by omega)]
    obtain ⟨hnone, hsettled⟩ := h.chain.later j (by omega)
    exact ⟨(congrFun hbackends j).trans hnone, hsettled⟩
  · intro j
    have hlocal := h.backends.locals j
    by_cases hj : j = s.activation + 1
    · subst hj
      rw [hself]
      obtain ⟨hnone, result, hresult⟩ := h.chain.later (s.activation + 1) (Nat.lt_succ_self _)
      refine ⟨fun _ => (congrFun hbackends _).trans hnone, nofun, nofun, ?_⟩
      intro c call hcall howner hunsettled
      rcases hcalls c call hcall with hwas | ⟨rfl, hactive, -⟩
      · have hawaits := hlocal.awaited c call hwas howner hunsettled
        rw [Activation.Awaits, hresult] at hawaits
        exact hawaits.elim
      · exact congrArg (Option.map fun _ => s.callCount) hactive
    · rw [hother j hj]
      refine hlocal.frame (congrFun hbackends j).trans hinitialized fun c call hcall howner _ => ?_
      refine (hcalls c call hcall).resolve_right fun hnew => ?_
      rw [howner] at hnew
      cases hnew.2.2
      exact hj rfl
  · exact fun b hb => .inr (hcalled b ((hcreated b).mp hb))
  · intro c call hcall howner
    rcases hcalls c call hcall with hwas | ⟨-, -, hnew⟩
    · exact hclosed.trans (h.backends.unowned c call hwas howner)
    · rw [howner] at hnew
      cases hnew
  · intro c b hc
    exact hinitialized b (h.backends.checking c b ((congrFun hcurrents c).symm.trans hc))
  · exact hclosed.trans (h.closing.closed (hdisposal ▸ hd))
  · exact (hcreated b).mpr (h.closing.late active b (hdisposal.symm.trans hd))

lemma Invariant.activate (profile : BackendProfile) : Invariant (s.activate profile) := by
  unfold Manager.activate
  split
  · exact h
  · next hopen =>
    have hopen : s.closed = false := by simpa using hopen
    have hself := s.nextActivation_self profile
    have hnew : Waiter.activation (s.activation + 1) ∉
        ((s.nextActivation profile).activations s.activation).waiters := by
      intro hmem
      have hactivations := (disposeActive_rest (s := s) (some (s.activation + 1))).1
      have hwas : (s.nextActivation profile).activations s.activation =
          s.activations s.activation :=
        (update_of_ne (by omega) ..).trans (congrFun hactivations _)
      rw [hwas] at hmem
      exact absurd (h.queues.waiter _ _ hmem).2.1 (Nat.lt_irrefl _)
    apply (h.nextActivation hopen profile).wait
    · intro j hj
      cases hj
      exact ⟨rfl, Nat.lt_succ_self _, by rw [hself], hnew⟩
    · exact fun hcurrent => hcurrent.elim
    · exact nofun

lemma Invariant.close : Invariant s.close := by
  obtain ⟨hcalls, hcalled, hfresh, hcallee⟩ := h.disposeActive none
  obtain ⟨hactivations, hbackends, hcurrents, hdisposal, -, hactivation⟩ :=
    disposeActive_rest (s := s) none
  have hsame : ∀ j, s.close.activations j = s.activations j := congrFun hactivations
  have hinitialized : ∀ b, s.Initialized b → s.close.Initialized b := by
    rintro b ⟨identity, hb⟩
    exact ⟨identity, (congrFun hbackends b).trans hb⟩
  have hcreated : ∀ b, s.close.Created b ↔ s.Created b := fun b => by
    show ((s.disposeActive none).backends b).isSome = true ↔ _
    rw [hbackends]
    rfl
  refine ⟨h.queues.congr hactivation (fun _ => rfl) (fun j => by rw [hsame])
    (fun j hj => by rwa [hsame]), ⟨nofun, fun j hj => ?_, fun j hj hgone => ?_, fun j hj => ?_⟩,
    ⟨fun j => ?_, nofun, fun b hb => .inr (hcalled b ((hcreated b).mp hb)), hfresh,
      fun c call hcall => (hcreated _).mpr (hcallee c call hcall), fun _ _ _ _ => rfl,
      fun c b hc => ?_⟩,
    ⟨fun _ => rfl, fun active b hd => ?_⟩⟩
  · rw [hsame]
    exact h.chain.epoch j (hactivation ▸ hj)
  · rw [hsame] at hgone ⊢
    exact h.chain.chain j (hactivation ▸ hj) hgone
  · have hlt : s.activation < j := hactivation ▸ hj
    rw [hsame]
    obtain ⟨hnone, hsettled⟩ := h.chain.later j hlt
    exact ⟨(congrFun hbackends j).trans hnone, hsettled⟩
  · rw [hsame]
    refine (h.backends.locals j).frame (congrFun hbackends j).trans hinitialized
      fun c call hcall howner _ => ?_
    refine (hcalls c call hcall).resolve_right fun hnew => ?_
    rw [howner] at hnew
    cases hnew.2.2
  · exact hinitialized b (h.backends.checking c b ((congrFun hcurrents c).symm.trans hc))
  · exact (hcreated b).mpr (h.closing.late active b (hdisposal.symm.trans hd))

lemma Invariant.callDispose (hclosed : s.closed = true) (hcreated : s.Created b) :
    Invariant (s.callDispose b none) := by
  refine ⟨h.queues.frame rfl rfl rfl, h.chain.frame rfl rfl rfl rfl fun _ _ => rfl,
    ⟨fun j => ?_, ?_, ?_, fun _ => h.calls_fresh, fun _ _ => h.callee hcreated,
      fun _ _ _ _ => hclosed, h.backends.checking⟩, ⟨h.closing.closed, h.closing.late⟩⟩
  · refine (h.backends.locals j).frame id (fun _ => id) fun c call hcall howner _ => ?_
    rw [calls_callDispose] at hcall
    split at hcall
    · cases hcall
      cases howner
    · exact hcall
  · intro other hactive
    exact absurd (hclosed.symm.trans (h.backends.active other hactive).2.1) (by decide)
  · exact fun other hother => (h.backends.released other hother).imp_right h.disposeCalled

lemma Invariant.dispose : Invariant s.dispose := by
  have hclose := h.close
  unfold Manager.dispose
  split
  · exact h
  · split
    · exact hclose.setDisposal rfl _ _ (by simp)
    · apply (hclose.setDisposal rfl none .waitPending (by simp)).wait
      · exact nofun
      · exact fun hcurrent => hcurrent.elim
      · exact fun _ => rfl

lemma Invariant.resumeDisposal (hstep : s.resumeDisposal = some t) : Invariant t := by
  unfold Manager.resumeDisposal at hstep
  split at hstep
  · next active call hdisposal =>
    have hclosed := h.closing.closed (by rw [hdisposal]; rfl)
    obtain ⟨result, -, rfl⟩ := map_eq_some_iff.mp hstep
    split
    · exact h.setDisposal hclosed active _ (by simp)
    · apply (h.setDisposal hclosed active .waitPending (by simp)).wait
      · exact nofun
      · exact fun hcurrent => hcurrent.elim
      · exact fun _ => hclosed
  · next active late hdisposal =>
    have hclosed := h.closing.closed (by rw [hdisposal]; rfl)
    split at hstep
    · next backend =>
      split at hstep
      · cases hstep
        have hcall := h.callDispose hclosed (h.closing.late active backend hdisposal)
        exact hcall.setDisposal hclosed active _ fun b hb => by cases hb
      · cases hstep
        exact h.setDisposal hclosed active _ (by simp)
    · cases hstep
      exact h.setDisposal hclosed active _ (by simp)
  · next active call hdisposal =>
    have hclosed := h.closing.closed (by rw [hdisposal]; rfl)
    obtain ⟨result, -, rfl⟩ := map_eq_some_iff.mp hstep
    exact h.setDisposal hclosed active _ fun b hb => by cases hb
  · cases hstep

end

/-! ## §4 Steps -/

lemma initial_invariant : Invariant (initial : Manager Error) := by
  refine ⟨⟨?_, ?_, ?_, ?_, ?_, ?_⟩, ⟨fun _ => rfl, ?_, ?_, fun _ _ => ⟨rfl, _, rfl⟩⟩,
    ⟨fun _ => ⟨fun h => h.elim, nofun, nofun, nofun⟩, nofun, nofun, fun _ _ => rfl, nofun, nofun,
      nofun⟩, ⟨nofun, nofun⟩⟩
  · exact nofun
  · exact fun _ => Pairwise.nil
  · exact fun _ => Pairwise.nil
  · exact nofun
  · exact nofun
  · exact nofun
  · intro k hk
    exact (Nat.le_zero.mp hk).symm
  · exact nofun

lemma Invariant.step (h : Invariant s) {event : Event Error} (hstep : s.step event = some t) :
    Invariant t := by
  cases event with
  | activate profile =>
    cases hstep
    exact h.activate profile
  | current =>
    cases hstep
    exact h.current
  | dispose =>
    cases hstep
    exact h.dispose
  | initialized backend result =>
    simp only [Manager.step] at hstep
    split at hstep
    · next hb =>
      cases hstep
      exact h.initialized hb result
    · cases hstep
  | disposed call result =>
    simp only [Manager.step] at hstep
    split at hstep
    · next hc =>
      cases hstep
      exact h.disposed hc result
    · cases hstep
  | react k => exact h.react hstep
  | resume k factory => exact h.resume hstep
  | check call => exact h.check hstep
  | resumeDisposal => exact h.resumeDisposal hstep

/-! ## §5 Overlaps -/

/-- No call of `current` changes, and a backend is created only while the manager is open and every
backend before has been disposed of. -/
structure Quiet (s t : Manager Error) : Prop where
  currents : t.currents = s.currents
  fresh : ∀ b, t.Created b → ¬ s.Created b →
    s.closed = false ∧ ∀ other, s.Created other → s.DisposeCalled other ∧ s.DisposeSettled other

lemma Quiet.of_created (hcurrents : t.currents = s.currents)
    (hcreated : ∀ b, t.Created b → s.Created b) : Quiet s t :=
  ⟨hcurrents, fun b hb hnew => absurd (hcreated b hb) hnew⟩

lemma Quiet.of_backends (hcurrents : t.currents = s.currents)
    (hbackends : t.backends = s.backends) : Quiet s t :=
  .of_created hcurrents fun b hb => by rwa [Created, hbackends] at hb

lemma Quiet.of_setPhase {phase : Phase Error} (h : Quiet (s.setPhase k phase) t) : Quiet s t :=
  ⟨h.currents, h.fresh⟩

section

variable (h : Invariant s)

include h

lemma Invariant.create_quiet (hrunning : (s.activations k).phase = .running)
    (factory : Option Error) : Quiet s (s.create k factory) := by
  obtain ⟨hbusy, hbefore⟩ := busy_of_running hrunning
  unfold Manager.create
  split
  · exact .of_backends rfl rfl
  · next hlatest =>
    obtain ⟨hopen, -, hsettled⟩ := h.all_settled hrunning hlatest
    cases factory with
    | some error => exact .of_backends rfl rfl
    | none =>
      refine ⟨rfl, fun _ _ _ => ⟨hopen, fun other hother => ⟨?_, fun c call hcall _ =>
        hsettled c call hcall⟩⟩⟩
      refine (h.backends.released other hother).resolve_left ?_
      rw [h.idle_of_before hbusy hbefore]
      exact nofun

lemma Invariant.disposePrevious_quiet (hrunning : (s.activations k).phase = .running)
    (previous : Option ℕ) (factory : Option Error) :
    Quiet s (s.disposePrevious k previous factory) := by
  unfold Manager.disposePrevious
  split
  · split
    · exact .of_backends rfl rfl
    · exact h.create_quiet hrunning factory
  · exact h.create_quiet hrunning factory

lemma Invariant.resume_quiet {factory : Option Error} (hstep : s.resume k factory = some t) :
    Quiet s t := by
  unfold Manager.resume at hstep
  split at hstep
  · next previous hwoken =>
    cases hstep
    unfold Manager.afterPrior
    split
    · exact .of_backends rfl rfl
    · next himmediate =>
      have hrun := h.run_woken hwoken himmediate
      exact (hrun.disposePrevious_quiet (by rw [setPhase_self]) previous factory).of_setPhase
  · next call next hphase =>
    obtain ⟨result, hresult, rfl⟩ := map_eq_some_iff.mp hstep
    have hcalls := h.settled_of_awaited hphase hresult
    have hbusy : (s.activations k).phase.Busy := by
      rw [hphase]
      trivial
    unfold Manager.afterDispose
    split
    · exact .of_backends rfl rfl
    · split
      · next previous =>
        have hrun := h.run hbusy (by rw [hphase]; trivial) hcalls
        exact (hrun.disposePrevious_quiet (by rw [setPhase_self]) previous factory).of_setPhase
      · have hrun := h.run hbusy (by rw [hphase]; trivial) hcalls
        exact (hrun.create_quiet (by rw [setPhase_self]) factory).of_setPhase
      · split
        · exact .of_backends rfl rfl
        · exact .of_backends rfl rfl
      · exact .of_backends rfl rfl
  · next hphase =>
    obtain ⟨result, -, rfl⟩ := map_eq_some_iff.mp hstep
    unfold Manager.afterInitialize
    split
    · exact .of_backends rfl rfl
    · split
      · exact .of_backends rfl rfl
      · exact .of_backends rfl rfl
  · cases hstep

/-- A call of `current` resolves only to the backend that is active. -/
theorem Invariant.check_resolved (hstep : s.check call = some t)
    (hresolved : t.currents c = some (.resolved b)) (hnew : s.currents c ≠ some (.resolved b)) :
    b = s.activation ∧ s.Initialized b ∧ ¬ s.DisposeCalled b := by
  unfold Manager.check at hstep
  split at hstep
  · next backend hchecking =>
    cases hstep
    by_cases hcc : c = call
    · subst hcc
      have houtcome := (update_self ..).symm.trans hresolved
      injection houtcome with houtcome
      split at houtcome
      · cases houtcome
      · cases backend with
        | none => cases houtcome
        | some given =>
          dsimp only at houtcome
          split at houtcome
          · next hactive =>
            cases houtcome
            obtain ⟨hlatest, -, -, -, hcalled⟩ := h.backends.active b hactive
            exact ⟨hlatest, h.backends.checking c b hchecking, hcalled⟩
          · cases houtcome
    · exact absurd ((update_of_ne hcc ..).symm.trans hresolved) hnew
  · cases hstep

/-- What a step that resolves no call of `current` leaves of the claims. -/
theorem Invariant.overlaps (hfresh : ∀ b, t.Created b → ¬ s.Created b →
      s.closed = false ∧ ∀ other, s.Created other → s.DisposeCalled other ∧ s.DisposeSettled other)
    (hcurrent : ∀ c b, t.currents c = some (.resolved b) → s.currents c ≠ some (.resolved b) →
      b = s.activation ∧ s.Initialized b ∧ ¬ s.DisposeCalled b) : NeverOverlaps s t where
  initialization b hb hnew := (hfresh b hb hnew).2
  current := hcurrent
  disposed hdisposal := by
    obtain ⟨active, result, hd⟩ := hdisposal
    have hclosed := h.closing.closed (by rw [hd]; rfl)
    constructor
    · intro b hb
      refine (h.backends.released b hb).resolve_left fun hactive => ?_
      exact absurd (hclosed.symm.trans (h.backends.active b hactive).2.1) (by decide)
    · intro b hb
      by_contra hnew
      exact absurd (hclosed.symm.trans (hfresh b hb hnew).1) (by decide)

lemma Invariant.overlaps_of_quiet (hquiet : Quiet s t) : NeverOverlaps s t :=
  h.overlaps hquiet.fresh fun _ _ hresolved hnew => absurd (hquiet.currents ▸ hresolved) hnew

end

/-- Where a step gives one call of `current` something else than a result. -/
theorem not_resolved_update {outcome : Current Error} (houtcome : outcome ≠ .resolved b)
    (hresolved : update s.currents call (some outcome) c = some (.resolved b)) :
    s.currents c = some (.resolved b) := by
  by_cases hcc : c = call
  · rw [hcc, update_self] at hresolved
    injection hresolved with hresolved
    exact absurd hresolved houtcome
  · rwa [update_of_ne hcc] at hresolved

lemma Invariant.never_overlaps (h : Invariant s) {event : Event Error}
    (hstep : s.step event = some t) : NeverOverlaps s t := by
  cases event with
  | activate profile =>
    cases hstep
    apply h.overlaps_of_quiet
    unfold Manager.activate
    split
    · exact .of_backends rfl rfl
    · obtain ⟨-, hbackends, hcurrents, -⟩ :=
        disposeActive_rest (s := s) (some (s.activation + 1))
      exact .of_backends hcurrents hbackends
  | current =>
    cases hstep
    unfold Manager.current
    split
    · exact h.overlaps (fun b hb hnew => absurd hb hnew) fun c b hresolved hnew =>
        absurd (not_resolved_update (by simp) hresolved) hnew
    · exact h.overlaps (fun b hb hnew => absurd hb hnew) fun c b hresolved hnew =>
        absurd (not_resolved_update (by simp) hresolved) hnew
  | dispose =>
    cases hstep
    apply h.overlaps_of_quiet
    obtain ⟨-, hbackends, hcurrents, -⟩ := disposeActive_rest (s := s) none
    unfold Manager.dispose
    split
    · exact .of_backends rfl rfl
    · split
      · exact .of_backends hcurrents hbackends
      · exact .of_backends hcurrents hbackends
  | initialized backend result =>
    simp only [Manager.step] at hstep
    split at hstep
    · next hb =>
      cases hstep
      refine h.overlaps_of_quiet (.of_created rfl fun j hj => ?_)
      by_cases hjb : j = backend
      · rw [hjb, Created, hb]
        rfl
      · rw [Created] at hj ⊢
        dsimp only at hj
        rwa [update_of_ne hjb] at hj
    · cases hstep
  | disposed call result =>
    simp only [Manager.step] at hstep
    split at hstep
    · cases hstep
      exact h.overlaps_of_quiet (.of_backends rfl rfl)
    · cases hstep
  | react k =>
    simp only [Manager.step, Manager.react] at hstep
    split at hstep
    · next result waiter rest hphase hwaiters =>
      cases waiter with
      | current call =>
        cases hstep
        exact h.overlaps (fun b hb hnew => absurd hb hnew) fun c b hresolved hnew =>
          absurd (not_resolved_update (by simp) hresolved) hnew
      | activation next =>
        cases hstep
        exact h.overlaps_of_quiet (.of_backends rfl rfl)
      | disposal =>
        obtain ⟨d, -, rfl⟩ := map_eq_some_iff.mp hstep
        exact h.overlaps_of_quiet (.of_backends rfl rfl)
    · cases hstep
  | resume k factory => exact h.overlaps_of_quiet (h.resume_quiet hstep)
  | check call =>
    refine h.overlaps (fun b hb hnew => ?_) fun c b => h.check_resolved hstep
    simp only [Manager.step, Manager.check] at hstep
    split at hstep
    · cases hstep
      exact absurd hb hnew
    · cases hstep
  | resumeDisposal =>
    apply h.overlaps_of_quiet
    simp only [Manager.step, Manager.resumeDisposal] at hstep
    split at hstep
    · obtain ⟨result, -, rfl⟩ := map_eq_some_iff.mp hstep
      split <;> exact .of_backends rfl rfl
    · split at hstep
      · split at hstep <;> cases hstep <;> exact .of_backends rfl rfl
      · cases hstep
        exact .of_backends rfl rfl
    · obtain ⟨result, -, rfl⟩ := map_eq_some_iff.mp hstep
      exact .of_backends rfl rfl
    · cases hstep

end Lemmas

end Manager

/-! ## §6 Every run -/

/-- In every run no step lets backends overlap. -/
theorem switching_never_overlaps {events : List (Event Error)} {event : Event Error}
    {s t : Manager Error} (hrun : runEvents Manager.step Manager.initial events = some s)
    (hstep : s.step event = some t) : NeverOverlaps s t := by
  have hinvariant : s.Invariant :=
    runEvents_kept (fun _ _ _ h hstep => h.step hstep) Manager.initial_invariant hrun
  exact hinvariant.never_overlaps hstep

/-- A daemon backend is asked for, and another one while the first is still initialized. -/
def switchedBackend : List (Event Unit) :=
  [.activate .daemon, .react 0, .resume 1 none, .current, .activate .inPlugin,
    .initialized 1 (.ok ()), .disposed 0 (.ok ()), .resume 1 none, .disposed 1 (.ok ()),
    .resume 1 none, .react 1, .react 1, .resume 2 none]

theorem switching_never_overlaps_switchedBackend :
    ∃ s t : Manager Unit, runEvents Manager.step Manager.initial switchedBackend = some s ∧
      s.step (.resume 2 none) = some t ∧ ¬ s.Created 2 ∧ t.Created 2 ∧ NeverOverlaps s t :=
  ⟨_, _, rfl, rfl, nofun, rfl, switching_never_overlaps
    (show runEvents Manager.step Manager.initial switchedBackend = some _ from rfl)
    (show Manager.step _ (.resume 2 none) = some _ from rfl)⟩

end Kwiry.Plugin.Switching
