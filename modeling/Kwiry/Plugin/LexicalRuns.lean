import Kwiry.Plugin.LexicalBackend

/-!
# Runs of the In-Plugin Lexical Backend
-/

namespace Kwiry.Plugin.Lexical

open Foundations List Option

variable {Observation Activity Result : Type}

/-! ## §1 Records -/

lemma Sound.nil : Sound ([] : List (Output Observation Activity Result)) where
  live past h := by simp [suffix_nil.mp h, liveSessions]
  disposed past h _ := by simp [suffix_nil.mp h, liveSessions]
  recovers past h := by simp [suffix_nil.mp h, recoveriesSinceClean]
  answers past session execution h := by simp at h
  published past output controller h := by simp at h

/-- One output more: the moments before it stay, and it adds one. -/
theorem Sound.cons {record : List (Output Observation Activity Result)} (h : Sound record)
    {output : Output Observation Activity Result}
    (hlive : (liveSessions (output :: record)).length ≤ 1)
    (hdisposed : .disposeFinished ∈ output :: record → liveSessions (output :: record) = [])
    (hrecovers : recoveriesSinceClean (output :: record) ≤ 1)
    (hanswers : ∀ session execution, output = .answered session execution →
      currentSession record = some session)
    (hpublished : ∀ controller, output.origin = some controller → .disposeBegun ∉ record ∧
      ∀ other, .controllerStarted other ∈ record → other ≤ controller) :
    Sound (output :: record) where
  live past hpast := by
    rcases suffix_cons_iff.mp hpast with rfl | hpast
    · exact hlive
    · exact h.live past hpast
  disposed past hpast := by
    rcases suffix_cons_iff.mp hpast with rfl | hpast
    · exact hdisposed
    · exact h.disposed past hpast
  recovers past hpast := by
    rcases suffix_cons_iff.mp hpast with rfl | hpast
    · exact hrecovers
    · exact h.recovers past hpast
  answers past session execution hpast := by
    rcases suffix_cons_iff.mp hpast with heq | hpast
    · cases heq
      exact hanswers session execution rfl
    · exact h.answers past session execution hpast
  published past other controller hpast horigin := by
    rcases suffix_cons_iff.mp hpast with heq | hpast
    · cases heq
      exact hpublished controller horigin
    · exact h.published past other controller hpast horigin

/-- An output that changes nothing of what a record says: a status of the backend's own, or one of
what is not asked about. -/
def Output.Inert : Output Observation Activity Result → Prop
  | .status none _ | .startFailed | .diagnostic _ _ | .refused _ => True
  | _ => False

namespace Backend

section Fields

variable (s : Backend Observation Activity Result)

@[simp] lemma emit_session (output) : (s.emit output).session = s.session := rfl

@[simp] lemma emit_controller (output) : (s.emit output).controller = s.controller := rfl

@[simp] lemma emit_disposed (output) : (s.emit output).disposed = s.disposed := rfl

@[simp] lemma emit_disposal (output) : (s.emit output).disposal = s.disposal := rfl

@[simp] lemma setSession_session (session) : (s.setSession session).session = session := rfl

@[simp] lemma setSession_disposed (session) : (s.setSession session).disposed = s.disposed := rfl

@[simp] lemma setSession_disposal (session) : (s.setSession session).disposal = s.disposal := rfl

lemma publish_cases (origin : Option ℕ) (status : BackendStatus) :
    s.publish origin status = s ∨
      s.publish origin status = { s with cachedStatus := status }.emit (.status origin status) := by
  rw [publish]
  split
  · exact .inl rfl
  · exact .inr rfl

/-- Publishing changes the status and the record alone. -/
@[simp] theorem publish_fields (origin status) :
    (s.publish origin status).session = s.session ∧
      (s.publish origin status).controller = s.controller ∧
      (s.publish origin status).disposed = s.disposed ∧
      (s.publish origin status).disposal = s.disposal := by
  rcases s.publish_cases origin status with h | h
  · rw [h]
    exact ⟨rfl, rfl, rfl, rfl⟩
  · rw [h]
    exact ⟨rfl, rfl, rfl, rfl⟩

/-- The end of a session changes the record alone. -/
@[simp] theorem forceDispose_fields (session) :
    (s.forceDispose session).session = s.session ∧
      (s.forceDispose session).controller = s.controller ∧
      (s.forceDispose session).disposed = s.disposed ∧
      (s.forceDispose session).disposal = s.disposal := by
  cases session <;> exact ⟨rfl, rfl, rfl, rfl⟩

@[simp] lemma stopCurrentSession_fields :
    s.stopCurrentSession.session = none ∧ s.stopCurrentSession.disposed = s.disposed ∧
      s.stopCurrentSession.disposal = s.disposal := by
  simp [stopCurrentSession, setSession]

@[simp] lemma createSession_disposed : s.createSession.disposed = s.disposed := rfl

@[simp] lemma createController_disposed : s.createController.disposed = s.disposed := rfl

end Fields

/-! ## §2 The backend and its record -/

/-- The record has one live session at most, which is `held`; it agrees with the backend about the
current session, the recoveries, the controllers and the disposal. -/
structure Keeps (held : Option ℕ) (s : Backend Observation Activity Result) : Prop where
  live : liveSessions s.record = held.toList
  current : currentSession s.record = s.session
  recoveries : recoveriesSinceClean s.record ≤ s.automaticRecoveries
  bounded : s.automaticRecoveries ≤ 1
  started : ∀ k, .controllerStarted k ∈ s.record → k < s.controllers.length
  newest : ∀ k, s.controller = some k → k + 1 = s.controllers.length
  begun : .disposeBegun ∈ s.record → s.disposed = true
  finished : .disposeFinished ∈ s.record → s.disposed = true ∧ held = none
  sound : Sound s.record

variable {held : Option ℕ} {s t : Backend Observation Activity Result}
variable {k : ℕ}

/-- What the record does not tell plays no part. -/
theorem Keeps.congr (h : Keeps held s) (hrecord : t.record = s.record)
    (hsession : t.session = s.session) (hcontroller : t.controller = s.controller)
    (hcontrollers : t.controllers.length = s.controllers.length)
    (hrecoveries : t.automaticRecoveries = s.automaticRecoveries)
    (hdisposed : t.disposed = s.disposed) : Keeps held t where
  live := by rw [hrecord, h.live]
  current := by rw [hrecord, hsession, h.current]
  recoveries := by rw [hrecord, hrecoveries]; exact h.recoveries
  bounded := by rw [hrecoveries]; exact h.bounded
  started := by rw [hrecord, hcontrollers]; exact h.started
  newest := by rw [hcontroller, hcontrollers]; exact h.newest
  begun := by rw [hrecord, hdisposed]; exact h.begun
  finished := by rw [hrecord, hdisposed]; exact h.finished
  sound := by rw [hrecord]; exact h.sound

/-- A backend that lets its controller go is tied to its record as before. -/
lemma Keeps.release (h : Keeps held s) : Keeps held { s with controller := none } where
  live := h.live
  current := h.current
  recoveries := h.recoveries
  bounded := h.bounded
  started := h.started
  newest k hk := by cases hk
  begun := h.begun
  finished := h.finished
  sound := h.sound

/-! ## §3 Outputs -/

/-- What an output asks for, before it and after it, and of the session that is then live: most
outputs publish, answer, start and dispose nothing. -/
def Allows (s t : Backend Observation Activity Result) (held : Option ℕ) :
    Output Observation Activity Result → Prop
  | .status controller _ => ∀ k, controller = some k → s.disposed = false ∧ s.controller = some k
  | .firstProgress k | .observation k _ | .activity k _ =>
    s.disposed = false ∧ s.controller = some k
  | .answered session _ => s.session = some session
  | .controllerStarted k => k < t.controllers.length
  | .disposeBegun => t.disposed = true
  | .disposeFinished => t.disposed = true ∧ held = none
  | _ => True

lemma Allows.origin {output : Output Observation Activity Result} {held' : Option ℕ}
    (h : Allows s t held' output) (hk : output.origin = some k) :
    s.disposed = false ∧ s.controller = some k := by
  cases output with
  | status controller status => exact h k hk
  | firstProgress | observation | activity =>
    cases hk
    exact h
  | _ => cases hk

section

variable (h : Keeps held s)

include h

/-- One output more, with the backend as it then is and the session that is then live. -/
theorem Keeps.output {held' : Option ℕ} {output : Output Observation Activity Result}
    (hrecord : t.record = output :: s.record)
    (hlive : liveSessions (output :: s.record) = held'.toList)
    (hcurrent : currentSession (output :: s.record) = t.session)
    (hrecoveries : recoveriesSinceClean (output :: s.record) ≤ t.automaticRecoveries)
    (hbounded : t.automaticRecoveries ≤ 1)
    (hnewest : ∀ k, t.controller = some k → k + 1 = t.controllers.length)
    (hheld : s.disposed = true → held = none → held' = none)
    (hlength : s.controllers.length ≤ t.controllers.length)
    (hkept : s.disposed = true → t.disposed = true) (hallowed : Allows s t held' output) :
    Keeps held' t := by
  have hdisposed : .disposeFinished ∈ t.record → t.disposed = true ∧ held' = none := by
    intro hmem
    rw [hrecord] at hmem
    rcases mem_cons.mp hmem with rfl | hmem
    · exact hallowed
    · obtain ⟨hd, hnone⟩ := h.finished hmem
      exact ⟨hkept hd, hheld hd hnone⟩
  refine ⟨by rw [hrecord, hlive], by rw [hrecord, hcurrent], by rw [hrecord]; exact hrecoveries,
    hbounded, fun k hk => ?_, hnewest, fun hmem => ?_, hdisposed, ?_⟩
  · rw [hrecord] at hk
    rcases mem_cons.mp hk with rfl | hk
    · exact hallowed
    · exact (h.started k hk).trans_le hlength
  · rw [hrecord] at hmem
    rcases mem_cons.mp hmem with rfl | hmem
    · exact hallowed
    · exact hkept (h.begun hmem)
  · rw [hrecord] at hdisposed ⊢
    refine h.sound.cons ?_ ?_ (hrecoveries.trans hbounded) ?_ ?_
    · rw [hlive]
      cases held' <;> simp
    · intro hmem
      rw [hlive, (hdisposed hmem).2]
      rfl
    · rintro session execution rfl
      exact h.current.trans hallowed
    · intro k hk
      obtain ⟨hactive, hcontroller⟩ := hallowed.origin hk
      refine ⟨fun hmem => ?_, fun other hother => ?_⟩
      · rw [h.begun hmem] at hactive
        cases hactive
      · have hlt := h.started other hother
        have hnewest := h.newest k hcontroller
        omega

variable {output : Output Observation Activity Result}

lemma Keeps.emit (hlive : liveSessions (output :: s.record) = liveSessions s.record)
    (hcurrent : currentSession (output :: s.record) = currentSession s.record)
    (hrecoveries : recoveriesSinceClean (output :: s.record) = recoveriesSinceClean s.record)
    (hallowed : Allows s (s.emit output) held output) : Keeps held (s.emit output) :=
  h.output rfl (hlive.trans h.live) (hcurrent.trans h.current) (hrecoveries.trans_le h.recoveries)
    h.bounded h.newest (fun _ => id) le_rfl id hallowed

lemma Keeps.emit_inert (hinert : output.Inert) : Keeps held (s.emit output) := by
  cases output with
  | status controller status =>
    cases controller with
    | none =>
      exact h.emit rfl rfl rfl (fun _ => nofun)
    | some k => exact hinert.elim
  | startFailed | diagnostic | refused =>
    exact h.emit rfl rfl rfl trivial
  | _ => exact hinert.elim

/-- What is published of the controller the backend has. -/
theorem Keeps.emit_published (hactive : s.disposed = false) (hcontroller : s.controller = some k)
    (horigin : output.origin = some k) : Keeps held (s.emit output) := by
  have hpublished : ∀ other, output.origin = some other →
      s.disposed = false ∧ s.controller = some other := by
    intro other hother
    rw [horigin] at hother
    exact ⟨hactive, hcontroller.trans hother⟩
  cases output with
  | status => exact h.emit rfl rfl rfl hpublished
  | firstProgress | observation | activity => exact h.emit rfl rfl rfl (hpublished _ rfl)
  | _ => cases horigin

lemma Keeps.publish (status : BackendStatus) : Keeps held (s.publish none status) := by
  rcases s.publish_cases none status with heq | heq
  · rw [heq]
    exact h
  · rw [heq]
    apply Keeps.emit_inert
    · exact h.congr rfl rfl rfl rfl rfl rfl
    · trivial

lemma Keeps.publish_own (hactive : s.disposed = false) (hcontroller : s.controller = some k)
    (status : BackendStatus) : Keeps held (s.publish (some k) status) := by
  rcases s.publish_cases (some k) status with heq | heq
  · rw [heq]
    exact h
  · rw [heq]
    apply Keeps.emit_published (k := k)
    · exact h.congr rfl rfl rfl rfl rfl rfl
    · exact hactive
    · exact hcontroller
    · rfl

/-- The answer of a search that was sent to the current session. -/
lemma Keeps.answer {session : ℕ} (hsession : s.session = some session)
    (execution : SearchExecution Result) : Keeps held (s.emit (.answered session execution)) :=
  h.emit rfl rfl rfl hsession

lemma Keeps.setSession (session : Option ℕ) : Keeps held (s.setSession session) :=
  h.output rfl h.live rfl h.recoveries h.bounded h.newest (fun _ => id) le_rfl id trivial

end

lemma Keeps.createSession (h : Keeps none s) (hactive : s.disposed = false) :
    Keeps (some s.sessionCount) s.createSession := by
  refine h.output rfl (congrArg (s.sessionCount :: ·) h.live) h.current h.recoveries h.bounded
    h.newest ?_ le_rfl id trivial
  -- nothing is created after `dispose`
  intro hdisposed
  rw [hactive] at hdisposed
  cases hdisposed

lemma Keeps.forceDispose (h : Keeps held s) : Keeps none (s.forceDispose held) := by
  cases held with
  | none => exact h
  | some session =>
    have hlive : liveSessions (.sessionTerminated session :: s.record) = [] := by
      rw [liveSessions, h.live]
      simp
    exact h.output rfl hlive h.current h.recoveries h.bounded h.newest (fun _ _ => rfl) le_rfl id
      trivial

lemma Keeps.stopCurrentSession (h : Keeps s.session s) : Keeps none s.stopCurrentSession :=
  (h.release.setSession none).forceDispose

/-- A recovery is counted when it is started. -/
lemma Keeps.recover (h : Keeps held s) (hnone : s.automaticRecoveries = 0) :
    Keeps held ({ s with automaticRecoveries := s.automaticRecoveries + 1 }.emit .recovery) := by
  have hzero := h.recoveries
  refine h.output rfl h.live h.current ?_ ?_ h.newest (fun _ => id) le_rfl id trivial
  · show recoveriesSinceClean s.record + 1 ≤ s.automaticRecoveries + 1
    omega
  · show s.automaticRecoveries + 1 ≤ 1
    omega

lemma Keeps.clean (h : Keeps held s) :
    Keeps held ({ s with automaticRecoveries := 0 }.emit .clean) :=
  h.output rfl h.live h.current (Nat.zero_le _) (Nat.zero_le _) h.newest (fun _ => id) le_rfl id
    trivial

/-- A controller the backend has just made is the newest one. -/
lemma Keeps.createController (h : Keeps held s) : Keeps held s.createController := by
  have hlength :
      (s.controllers ++ [Controller.mk s.epoch none]).length = s.controllers.length + 1 :=
    length_append
  refine h.output rfl h.live h.current h.recoveries h.bounded ?_ (fun _ => id) ?_ id ?_
  · intro k heq
    cases heq
    exact hlength.symm
  · exact (Nat.le_succ _).trans_eq hlength.symm
  · exact (Nat.lt_succ_self _).trans_eq hlength.symm

/-! ## §4 A backend that is not disposed -/

/-- Its own session is the one that is live. -/
structure Active (s : Backend Observation Activity Result) : Prop where
  keeps : Keeps s.session s
  disposed : s.disposed = false
  disposal : s.disposal = none

variable {options : BackendOptions}

lemma Active.publishUnavailable (h : Active s) : Active (s.publishUnavailable options) where
  keeps := by
    rw [Backend.publishUnavailable, (publish_fields ..).1]
    apply Keeps.publish
    exact h.keeps.congr rfl rfl rfl rfl rfl rfl
  disposed := by simp [Backend.publishUnavailable, h.disposed]
  disposal := by simp [Backend.publishUnavailable, h.disposal]

lemma Active.emit_inert (h : Active s) (hinert : output.Inert) : Active (s.emit output) :=
  ⟨h.keeps.emit_inert hinert, h.disposed, h.disposal⟩

lemma Active.stopCurrentSession (h : Active s) : Active s.stopCurrentSession where
  keeps := by
    rw [s.stopCurrentSession_fields.1]
    exact h.keeps.stopCurrentSession
  disposed := by simp [h.disposed]
  disposal := by simp [h.disposal]

lemma Active.startFailed (h : Active s) : Active (s.startFailed options) :=
  h.stopCurrentSession.publishUnavailable.emit_inert trivial

lemma announceStart_session (s : Backend Observation Activity Result) (options : BackendOptions)
    (recovering : Bool) : (s.announceStart options recovering).session = none := by
  simp [announceStart]

lemma Active.announceStart (h : Active s) (recovering : Bool) :
    Active (s.announceStart options recovering) where
  keeps := by
    rw [announceStart_session, Backend.announceStart]
    apply Keeps.publish
    exact h.keeps.stopCurrentSession.congr rfl rfl rfl rfl rfl rfl
  disposed := by simp [Backend.announceStart, h.disposed]
  disposal := by simp [Backend.announceStart, h.disposal]

/-- Where the constructor of the controller returns, the session that is created becomes the
backend's. -/
theorem Active.startController (hconstructs : options.constructs = true) (h : Active s)
    (recovering opens : Bool) : Active (s.startController options recovering opens) := by
  have hannounced : Active (s.announceStart options recovering) := h.announceStart recovering
  have hkeeps : Keeps none (s.announceStart options recovering) :=
    s.announceStart_session options recovering ▸ hannounced.keeps
  rw [Backend.startController]
  split
  · exact hannounced.startFailed
  · rw [if_neg (by simp [hconstructs])]
    have hcreated := hkeeps.createSession hannounced.disposed
    exact ⟨(hcreated.setSession _).createController, hannounced.disposed, hannounced.disposal⟩

lemma Active.handleUncertainWorkerFailure (hconstructs : options.constructs = true)
    (h : Active s) (opens : Bool) : Active (s.handleUncertainWorkerFailure options opens) := by
  rw [Backend.handleUncertainWorkerFailure, if_neg (by simp [h.disposed])]
  split
  · exact h.stopCurrentSession.publishUnavailable
  · next hfew =>
    have hcounted : Active ({ s with
        automaticRecoveries := s.automaticRecoveries + 1 }.emit .recovery) :=
      ⟨h.keeps.recover (by omega), h.disposed, h.disposal⟩
    exact hcounted.startController hconstructs true opens

/-! ## §5 Calls -/

lemma Active.initialization (hconstructs : options.constructs = true) (h : Active s)
    (opens : Bool) : Active (s.initialization options opens) := by
  rw [Backend.initialization, if_neg (by simp [h.disposed])]
  split
  · exact h
  · exact h.startController hconstructs false opens

lemma Active.rebuild (hconstructs : options.constructs = true) (h : Active s) (opens : Bool) :
    Active (s.rebuild options opens) := by
  have hclean : Active ({ s with automaticRecoveries := 0 }.emit .clean) :=
    ⟨h.keeps.clean, h.disposed, h.disposal⟩
  rw [Backend.rebuild, if_neg (by simp [h.disposed])]
  split
  · exact hclean
  · exact hclean.startController hconstructs false opens

lemma Active.search (h : Active s) (mode : SearchMode) : Active (s.search mode) := by
  rw [Backend.search, if_neg (by simp [h.disposed])]
  split
  · exact h.emit_inert trivial
  split
  · exact h.emit_inert trivial
  split
  · exact h.emit_inert trivial
  constructor
  · exact h.keeps.congr rfl rfl rfl rfl rfl rfl
  · exact h.disposed
  · exact h.disposal

lemma Active.searched (hconstructs : options.constructs = true) (h : Active s)
    (entry : PendingSearch) (answer : Except WorkerFailure Result) (opens : Bool) :
    Active (s.searched options entry answer opens) := by
  unfold Backend.searched
  split
  · exact h.emit_inert trivial
  · next hcurrent =>
    cases answer with
    | ok response =>
      have hsession : s.session = some entry.session := by
        by_contra hne
        exact hcurrent (.inr (.inr (Ne.symm hne)))
      exact ⟨h.keeps.answer hsession _, h.disposed, h.disposal⟩
    | error failure =>
      show Active (if isUncertainWorkerFailure failure then _ else _)
      split
      · exact (h.handleUncertainWorkerFailure hconstructs opens).emit_inert trivial
      · exact h.emit_inert trivial

/-! ## §6 Callbacks -/

lemma Active.emit_published (h : Active s) (hcontroller : s.controller = some k)
    (horigin : output.origin = some k) : Active (s.emit output) :=
  ⟨h.keeps.emit_published h.disposed hcontroller horigin, h.disposed, h.disposal⟩

lemma Active.publish_own (h : Active s) (hcontroller : s.controller = some k)
    (status : BackendStatus) : Active (s.publish (some k) status) where
  keeps := by
    rw [(s.publish_fields ..).1]
    exact h.keeps.publish_own h.disposed hcontroller status
  disposed := by simp [h.disposed]
  disposal := by simp [h.disposal]

lemma controller_of_not_stale {c : Controller} (h : ¬ s.Stale k c) : s.controller = some k := by
  by_contra hne
  exact h (.inr (.inr hne))

lemma Active.noteStatus (h : Active s) (k : ℕ) (c : Controller)
    (status : IndexControllerStatus) : Active (s.noteStatus k c status) := by
  constructor
  · exact h.keeps.congr rfl rfl rfl length_set rfl rfl
  · exact h.disposed
  · exact h.disposal

lemma Active.observeProgress (h : Active s) (hcontroller : s.controller = some k)
    (status : IndexControllerStatus) : Active (s.observeProgress k status) := by
  rw [Backend.observeProgress]
  split
  · apply Active.emit_published (k := k)
    · exact ⟨h.keeps.congr rfl rfl rfl rfl rfl rfl, h.disposed, h.disposal⟩
    · exact hcontroller
    · rfl
  · exact h

lemma observeProgress_controller (s : Backend Observation Activity Result) (k : ℕ)
    (status : IndexControllerStatus) : (s.observeProgress k status).controller = s.controller := by
  rw [observeProgress]
  split <;> rfl

lemma Active.settle (h : Active s) (status : IndexControllerStatus) :
    Active (s.settle status) := by
  have hsettled : Active { s with recovering := false } :=
    ⟨h.keeps.congr rfl rfl rfl rfl rfl rfl, h.disposed, h.disposal⟩
  rw [Backend.settle]
  split
  · show Active (if _ then _ else _)
    split
    · exact ⟨hsettled.keeps.clean, h.disposed, h.disposal⟩
    · exact hsettled
  · exact h

lemma settle_controller (s : Backend Observation Activity Result)
    (status : IndexControllerStatus) : (s.settle status).controller = s.controller := by
  rw [settle]
  split
  · show Backend.controller (if _ then _ else _) = _
    split <;> rfl
  · rfl

lemma Active.onStatus (h : Active s) (k : ℕ) (c : Controller) (status : IndexControllerStatus) :
    Active (s.onStatus options k c status) := by
  rw [Backend.onStatus]
  split
  · exact h
  · next hfresh =>
    have hcontroller : (s.noteStatus k c status).controller = some k :=
      controller_of_not_stale hfresh
    have hobserved := (h.noteStatus k c status).observeProgress hcontroller status
    refine (hobserved.settle status).publish_own ?_ _
    rw [settle_controller, observeProgress_controller, hcontroller]

lemma Active.onFailure (hconstructs : options.constructs = true) (h : Active s) (k : ℕ)
    (c : Controller) (error : WorkerFailure) (opens : Bool) :
    Active (s.onFailure options k c error opens) := by
  have hclassified : Active (s.emit (.diagnostic k error)) := h.emit_inert trivial
  unfold Backend.onFailure
  show Active (if _ then _ else _)
  split
  · exact hclassified
  next hfresh =>
  split
  · exact hclassified.handleUncertainWorkerFailure hconstructs opens
  split
  · split
    · exact hclassified
    · apply Active.publish_own
      · exact ⟨hclassified.keeps.congr rfl rfl rfl rfl rfl rfl, h.disposed, h.disposal⟩
      · exact controller_of_not_stale hfresh
  · exact hclassified

lemma Active.called (hconstructs : options.constructs = true) (h : Active s) (k : ℕ)
    (c : Controller) (callback : Callback Observation Activity) :
    Active (s.called options k c callback) := by
  cases callback with
  | status status => exact h.onStatus k c status
  | failure error opens => exact h.onFailure hconstructs k c error opens
  | observation observation | activity activity =>
    show Active (if _ then _ else _)
    split
    · exact h
    · next hfresh => exact h.emit_published (controller_of_not_stale hfresh) rfl

/-! ## §7 A backend that is disposed -/

/-- The session the disposal still has to terminate. -/
def closing (s : Backend Observation Activity Result) : Option ℕ :=
  match s.disposal with
  | some (.preparing _ session) => session
  | _ => none

/-- No session is its own any more; one may be live while the disposal prepares. -/
structure Closed (s : Backend Observation Activity Result) : Prop where
  keeps : Keeps s.closing s
  disposed : s.disposed = true
  session : s.session = none
  controller : s.controller = none

lemma Closed.emit_inert (h : Closed s) (hinert : output.Inert) : Closed (s.emit output) :=
  ⟨h.keeps.emit_inert hinert, h.disposed, h.session, h.controller⟩

/-- `dispose` hands the session over to the disposal. -/
lemma Active.dispose (h : Active s) : Closed (s.dispose options) := by
  have hbegun : Keeps s.session ({ s with
      disposed := true, epoch := s.epoch + 1, controller := none }.emit .disposeBegun) := by
    exact h.keeps.output rfl h.keeps.live h.keeps.current h.keeps.recoveries h.keeps.bounded
      (by simp) (fun _ => id) le_rfl (fun _ => rfl) rfl
  rw [Backend.dispose, if_neg (by simp [h.disposed])]
  constructor
  · rw [closing, (publish_fields ..).2.2.2]
    apply Keeps.publish
    exact (hbegun.setSession none).congr rfl rfl rfl rfl rfl rfl
  · simp
  · simp
  · rw [(publish_fields ..).2.1]
    rfl

lemma Closed.finishDisposal (h : Keeps none s) (hdisposed : s.disposed = true)
    (hsession : s.session = none) (hcontroller : s.controller = none) :
    Closed s.finishDisposal where
  keeps := h.output rfl h.live h.current h.recoveries h.bounded h.newest
    (fun _ _ => rfl) le_rfl id ⟨hdisposed, rfl⟩
  disposed := hdisposed
  session := hsession
  controller := hcontroller

lemma Closed.resumeDisposal (h : Closed s) (hnext : s.resumeDisposal = some t) : Closed t := by
  have hkeeps := h.keeps
  rw [closing] at hkeeps
  unfold Backend.resumeDisposal at hnext
  split at hnext
  · next controller session hdisposal =>
    rw [hdisposal] at hkeeps
    have hterminated : Keeps none (s.forceDispose session) := hkeeps.forceDispose
    obtain ⟨hsession, hcontroller, hdisposed, -⟩ := s.forceDispose_fields session
    rw [h.session] at hsession
    rw [h.controller] at hcontroller
    rw [h.disposed] at hdisposed
    split at hnext
    · cases hnext
      exact ⟨hterminated.congr rfl rfl rfl rfl rfl rfl, hdisposed, hsession, hcontroller⟩
    · cases hnext
      exact Closed.finishDisposal hterminated hdisposed hsession hcontroller
  · next hdisposal =>
    rw [hdisposal] at hkeeps
    cases hnext
    exact Closed.finishDisposal hkeeps h.disposed h.session h.controller
  · cases hnext
  · cases hnext

/-- Every callback finds its controller gone; a failure is still classified. -/
lemma Closed.called (h : Closed s) (k : ℕ) (c : Controller)
    (callback : Callback Observation Activity) : Closed (s.called options k c callback) := by
  have hstale : s.Stale k c := .inl h.disposed
  cases callback with
  | status status =>
    show Closed (if s.Stale k c then s else _)
    rw [if_pos hstale]
    exact h
  | failure error opens =>
    have hclassified : (s.emit (.diagnostic k error)).Stale k c := hstale
    show Closed (if (s.emit (.diagnostic k error)).Stale k c then _ else _)
    rw [if_pos hclassified]
    exact h.emit_inert trivial
  | observation observation | activity activity =>
    show Closed (if s.Stale k c then s else _)
    rw [if_pos hstale]
    exact h

lemma Closed.startFailed (h : Closed s) : Closed (s.startFailed options) := by
  have hstopped : s.stopCurrentSession = ({ s with controller := none }).setSession none := by
    rw [Backend.stopCurrentSession, h.session]
    rfl
  have hsuppressed : s.startFailed options =
      ({ s.stopCurrentSession with recovering := false }).emit .startFailed := by
    rw [Backend.startFailed, Backend.publishUnavailable, publish, if_pos]
    exact ⟨by simp [h.disposed], by simp [unavailableStatus]⟩
  rw [hsuppressed, hstopped]
  apply Closed.emit_inert
  · constructor
    · exact (h.keeps.release.setSession none).congr rfl rfl rfl rfl rfl rfl
    · exact h.disposed
    · rfl
    · rfl
  · trivial

/-! ## §8 Runs -/

/-- A backend is not disposed and has the session that is live, or it is and the disposal has it. -/
def Invariant (s : Backend Observation Activity Result) : Prop := Active s ∨ Closed s

lemma Invariant.sound (h : Invariant s) : Sound s.record := by
  rcases h with h | h
  · exact h.keeps.sound
  · exact h.keeps.sound

lemma startEnded_eq (h : s.startEnded = some t) : t = { s with starting := s.starting.tail } :=
  (some.inj (ite_none_left_eq_some.mp h).2).symm

lemma Active.startEnded (h : Active s) (hended : s.startEnded = some t) : Active t := by
  rw [startEnded_eq hended]
  exact ⟨h.keeps.congr rfl rfl rfl rfl rfl rfl, h.disposed, h.disposal⟩

lemma Closed.startEnded (h : Closed s) (hended : s.startEnded = some t) : Closed t := by
  rw [startEnded_eq hended]
  exact ⟨h.keeps.congr rfl rfl rfl rfl rfl rfl, h.disposed, h.session, h.controller⟩

variable {event : Event Observation Activity Result}

lemma Active.step (hconstructs : options.constructs = true) (h : Active s)
    (hstep : s.step options event = some t) : Invariant t := by
  cases event with
  | initialization opens =>
    obtain ⟨-, heq⟩ := ite_none_right_eq_some.mp hstep
    cases heq
    exact .inl (h.initialization hconstructs opens)
  | rebuild opens =>
    obtain ⟨-, heq⟩ := ite_none_right_eq_some.mp hstep
    cases heq
    exact .inl (h.rebuild hconstructs opens)
  | search mode =>
    obtain ⟨-, heq⟩ := ite_none_right_eq_some.mp hstep
    cases heq
    exact .inl (h.search mode)
  | searched entry answer opens =>
    obtain ⟨-, heq⟩ := ite_none_right_eq_some.mp hstep
    cases heq
    have hawaited : Active { s with searches := s.searches.erase entry } :=
      ⟨h.keeps.congr rfl rfl rfl rfl rfl rfl, h.disposed, h.disposal⟩
    exact .inl (hawaited.searched hconstructs entry answer opens)
  | dispose =>
    obtain ⟨-, heq⟩ := ite_none_right_eq_some.mp hstep
    cases heq
    exact .inr h.dispose
  | disposal =>
    -- nothing of a disposal is awaited yet
    obtain ⟨-, hnext⟩ := ite_none_right_eq_some.mp hstep
    rw [resumeDisposal, h.disposal] at hnext
    cases hnext
  | callback k callback =>
    obtain ⟨-, hnext⟩ := ite_none_right_eq_some.mp hstep
    obtain ⟨c, -, rfl⟩ := map_eq_some_iff.mp hnext
    exact .inl (h.called hconstructs k c callback)
  | started => exact .inl (h.startEnded hstep)
  | startThrew =>
    obtain ⟨ended, hended, rfl⟩ := map_eq_some_iff.mp hstep
    exact .inl (h.startEnded hended).startFailed

/-- Calls are refused, and what was awaited finds the backend disposed. -/
lemma Closed.step (h : Closed s) (hstep : s.step options event = some t) : Closed t := by
  cases event with
  | initialization opens =>
    obtain ⟨-, heq⟩ := ite_none_right_eq_some.mp hstep
    cases heq
    rw [Backend.initialization, if_pos h.disposed]
    exact h.emit_inert trivial
  | rebuild opens =>
    obtain ⟨-, heq⟩ := ite_none_right_eq_some.mp hstep
    cases heq
    rw [Backend.rebuild, if_pos h.disposed]
    exact h.emit_inert trivial
  | search mode =>
    obtain ⟨-, heq⟩ := ite_none_right_eq_some.mp hstep
    cases heq
    rw [Backend.search, if_pos h.disposed]
    exact h.emit_inert trivial
  | searched entry answer opens =>
    obtain ⟨-, heq⟩ := ite_none_right_eq_some.mp hstep
    cases heq
    have hawaited : Closed { s with searches := s.searches.erase entry } :=
      ⟨h.keeps.congr rfl rfl rfl rfl rfl rfl, h.disposed, h.session, h.controller⟩
    unfold Backend.searched
    rw [if_pos (.inl h.disposed)]
    exact hawaited.emit_inert trivial
  | dispose =>
    obtain ⟨-, heq⟩ := ite_none_right_eq_some.mp hstep
    cases heq
    rw [Backend.dispose, if_pos h.disposed]
    exact h
  | disposal =>
    obtain ⟨-, hnext⟩ := ite_none_right_eq_some.mp hstep
    exact h.resumeDisposal hnext
  | callback k callback =>
    obtain ⟨-, hnext⟩ := ite_none_right_eq_some.mp hstep
    obtain ⟨c, -, rfl⟩ := map_eq_some_iff.mp hnext
    exact h.called k c callback
  | started => exact h.startEnded hstep
  | startThrew =>
    obtain ⟨ended, hended, rfl⟩ := map_eq_some_iff.mp hstep
    exact (h.startEnded hended).startFailed

lemma Invariant.step (hconstructs : options.constructs = true) (h : Invariant s)
    (hstep : s.step options event = some t) : Invariant t := by
  rcases h with h | h
  · exact h.step hconstructs hstep
  · exact .inr (h.step hstep)

lemma create_active (options : BackendOptions) :
    Active (create options : Backend Observation Activity Result) := by
  constructor
  · exact ⟨rfl, rfl, Nat.le_refl _, Nat.zero_le _, by simp [create], by simp [create],
      by simp [create], by simp [create], Sound.nil⟩
  · rfl
  · rfl

end Backend

/-- A session that is created before the constructor of the controller throws is never terminated,
and a rebuild creates another. -/
theorem leaked {options : BackendOptions} (hthrows : options.constructs = false) :
    ∃ s, runEvents (Backend.step options)
        (Backend.create options : Backend Observation Activity Result)
        [.initialization true, .rebuild true] = some s ∧ liveSessions s.record = [1, 0] := by
  simp [Backend.step, Backend.create, Backend.initialization, Backend.rebuild,
    Backend.startController, Backend.announceStart, Backend.createSession, Backend.startFailed,
    Backend.stopCurrentSession, Backend.publishUnavailable, Backend.publish, Backend.forceDispose,
    Backend.setSession, Backend.emit, hthrows, liveSessions]

/-- The records of all runs are sound exactly where the options are in their domain, in which the
controller's constructor returns. -/
theorem sound_iff (options : BackendOptions) :
    (∀ (events : List (Event Observation Activity Result)) s,
      runEvents (Backend.step options) (Backend.create options) events = some s →
        Sound s.record) ↔
      options.constructs = true := by
  constructor
  · intro h
    by_contra hthrows
    obtain ⟨s, hrun, hlive⟩ := leaked (Bool.eq_false_of_not_eq_true hthrows)
    have hle := (h _ s hrun).live _ suffix_rfl
    rw [hlive] at hle
    exact absurd hle (by decide)
  · intro hconstructs events s hrun
    have hkept : Backend.Invariant s := by
      refine runEvents_kept ?_ (.inl (Backend.create_active options)) hrun
      intro s event t hs hstep
      exact hs.step hconstructs hstep
    exact hkept.sound

end Kwiry.Plugin.Lexical
