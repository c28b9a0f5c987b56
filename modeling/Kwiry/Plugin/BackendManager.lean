import Kwiry.Plugin.Backend

/-!
# The Backend Manager

The manager has one backend at a time. Each activation waits for the one before it and for the
disposal of the backend that was active, and creates its own only if no later activation has begun.
-/

namespace Kwiry.Plugin.Switching

open Foundations

/-! ## §1 Data -/

variable {Error : Type}

/-- What an operation of the manager is rejected with: an error of its own, or what a backend or a
factory has thrown. -/
inductive Failure (Error : Type) where
  | own (error : KwiryBackendError)
  | thrown (error : Error)

/-- A backend, named by the activation that creates it, with what its `initialize` came to. -/
structure Backend (Error : Type) where
  identity : BackendIdentity
  initialization : Option (Except Error Unit)

/-- A call of a backend's `dispose`, the activation that awaits it if one does, and what it came
    to. -/
structure DisposeCall (Error : Type) where
  backend : ℕ
  owner : Option ℕ
  result : Option (Except Error Unit)

/-- What an activation does after a disposal it awaits. -/
inductive AfterDispose (Error : Type) where
  | immediate (previous : Option ℕ)
  | previous
  | failed (error : Error)
  | superseded

/-- Where an activation is: waiting for the one before, past it with what it came to, between two
awaits, in a disposal, in its backend's `initialize`, or at its end. -/
inductive Phase (Error : Type) where
  | waitPrior
  | woken (previous : Option ℕ)
  | running
  | waitDispose (call : ℕ) (next : AfterDispose Error)
  | initializing
  | settled (result : Except (Failure Error) (Option ℕ))

/-- Who waits for an activation: a call of `current`, the next activation, or the disposal of the
manager. -/
inductive Waiter where
  | current (call : ℕ)
  | activation (next : ℕ)
  | disposal

/-- An activation. Its waiters are in the order in which they have asked, which is the order in
which a promise lets them go on. -/
structure Activation (Error : Type) where
  profile : BackendProfile
  epoch : ℕ
  (previousNow immediateDisposal : Option ℕ)
  phase : Phase Error
  waiters : List Waiter

/-- A call of `current`: waiting, with what it has been given, or at its end. -/
inductive Current (Error : Type) where
  | waiting
  | checking (backend : Option ℕ)
  | resolved (backend : ℕ)
  | rejected (error : KwiryBackendError)

inductive DisposalPhase (Error : Type) where
  | waitActive (call : ℕ)
  | waitPending
  | woken (late : Option ℕ)
  | waitLate (call : ℕ)
  | settled (result : Except Error Unit)

/-- The manager's disposal, with the backend that was active. -/
structure Disposal (Error : Type) where
  active : Option ℕ
  phase : DisposalPhase Error

/-- The manager. Activation 0 is the promise that the first one finds. -/
structure Manager (Error : Type) where
  activeBackend : Option ℕ
  (nextInstance activation activationEpoch : ℕ)
  closed : Bool
  disposal : Option (Disposal Error)
  activations : ℕ → Activation Error
  backends : ℕ → Option (Backend Error)
  callCount : ℕ
  calls : ℕ → Option (DisposeCall Error)
  currentCount : ℕ
  currents : ℕ → Option (Current Error)

def managerDisposedError : KwiryBackendError where
  code := "disposed"
  profile := .daemon
  stage := .lifecycle
  retryable := false
  safeMessage := "The backend manager is disposed."
  failureCause := none

def notSelectedError : KwiryBackendError where
  code := "backend_not_selected"
  profile := .daemon
  stage := .lifecycle
  retryable := true
  safeMessage := "Select a search backend."
  failureCause := none

namespace Manager

/-- A promise that is fulfilled with nothing. -/
def origin : Activation Error where
  profile := .daemon
  epoch := 0
  previousNow := none
  immediateDisposal := none
  phase := .settled (.ok none)
  waiters := []

def initial : Manager Error where
  activeBackend := none
  nextInstance := 1
  activation := 0
  activationEpoch := 0
  closed := false
  disposal := none
  activations := fun _ => origin
  backends := fun _ => none
  callCount := 0
  calls := fun _ => none
  currentCount := 0
  currents := fun _ => none

/-! ## §2 The manager -/

def setActivation (k : ℕ) (a : Activation Error) (s : Manager Error) : Manager Error :=
  { s with activations := Function.update s.activations k a }

def setPhase (k : ℕ) (phase : Phase Error) (s : Manager Error) : Manager Error :=
  s.setActivation k { s.activations k with phase := phase }

/-- Someone waits for an activation. -/
def wait (k : ℕ) (waiter : Waiter) (s : Manager Error) : Manager Error :=
  s.setActivation k { s.activations k with waiters := (s.activations k).waiters ++ [waiter] }

/-- A call of a backend's `dispose`; it is named by the number of calls before it. -/
def callDispose (backend : ℕ) (owner : Option ℕ) (s : Manager Error) : Manager Error :=
  { s with
    calls := Function.update s.calls s.callCount (some ⟨backend, owner, none⟩)
    callCount := s.callCount + 1 }

/-- An activation calls `dispose` and awaits it. -/
def awaitDispose (k backend : ℕ) (next : AfterDispose Error) (s : Manager Error) : Manager Error :=
  (s.callDispose backend (some k)).setPhase k (.waitDispose s.callCount next)

/-- The manager has been closed, or a later activation has begun. -/
def Superseded (k : ℕ) (s : Manager Error) : Prop :=
  s.closed = true ∨ (s.activations k).epoch ≠ s.activationEpoch

instance (k : ℕ) (s : Manager Error) : Decidable (s.Superseded k) :=
  inferInstanceAs (Decidable (_ ∨ _))

/-- `dispose` of the active backend is called, if there is one. -/
def disposeActive (owner : Option ℕ) (s : Manager Error) : Manager Error :=
  match s.activeBackend with
  | some active => s.callDispose active owner
  | none => s

/-- The next activation, before it waits. -/
def nextActivation (profile : BackendProfile) (s : Manager Error) : Manager Error :=
  { s.disposeActive (some (s.activation + 1)) with
    activeBackend := none
    activation := s.activation + 1
    activationEpoch := s.activationEpoch + 1 }.setActivation (s.activation + 1)
    { profile := profile, epoch := s.activationEpoch + 1, previousNow := s.activeBackend
      immediateDisposal := s.activeBackend.map fun _ => s.callCount
      phase := .waitPrior, waiters := [] }

/-- `activate`: nothing more than a rejection once the manager is closed. -/
def activate (profile : BackendProfile) (s : Manager Error) : Manager Error :=
  if s.closed then s
  else (s.nextActivation profile).wait s.activation (.activation (s.activation + 1))

def instanceId (profile : BackendProfile) (number : ℕ) : Text :=
  profile.name.toList ++ '-' :: (toString number).toList

/-- A backend is created, if the factory does not throw, and its `initialize` called. -/
def create (k : ℕ) (factory : Option Error) (s : Manager Error) : Manager Error :=
  if s.Superseded k then s.setPhase k (.settled (.error (.own managerDisposedError)))
  else match factory with
    | some error =>
      { s with nextInstance := s.nextInstance + 1 }.setPhase k (.settled (.error (.thrown error)))
    | none =>
      let profile := (s.activations k).profile
      { s with
        nextInstance := s.nextInstance + 1
        backends := Function.update s.backends k
          (some ⟨⟨profile, instanceId profile s.nextInstance⟩, none⟩)
        activeBackend := some k }.setPhase k .initializing

def disposePrevious (k : ℕ) (previous : Option ℕ) (factory : Option Error) (s : Manager Error) :
    Manager Error :=
  match previous with
  | some backend =>
    if (s.activations k).previousNow ≠ some backend then s.awaitDispose k backend .previous
    else s.create k factory
  | none => s.create k factory

def afterPrior (k : ℕ) (previous : Option ℕ) (factory : Option Error) (s : Manager Error) :
    Manager Error :=
  match (s.activations k).immediateDisposal with
  | some call => s.setPhase k (.waitDispose call (.immediate previous))
  | none => (s.setPhase k .running).disposePrevious k previous factory

/-- The activation's own backend is given up and disposed of. -/
def discard (k : ℕ) (next : AfterDispose Error) (s : Manager Error) : Manager Error :=
  { s with
    activeBackend := if s.activeBackend = some k then none else s.activeBackend }.awaitDispose k k
      next

def afterInitialize (k : ℕ) (result : Except Error Unit) (s : Manager Error) : Manager Error :=
  match result with
  | .error error => s.discard k (.failed error)
  | .ok () =>
    if s.Superseded k then s.discard k .superseded else s.setPhase k (.settled (.ok (some k)))

def afterDispose (k : ℕ) (next : AfterDispose Error) (result : Except Error Unit)
    (factory : Option Error) (s : Manager Error) : Manager Error :=
  match result with
  | .error error => s.setPhase k (.settled (.error (.thrown error)))
  | .ok () =>
    match next with
    | .immediate previous => (s.setPhase k .running).disposePrevious k previous factory
    | .previous => (s.setPhase k .running).create k factory
    | .failed error =>
      if s.Superseded k then s.setPhase k (.settled (.error (.own managerDisposedError)))
      else s.setPhase k (.settled (.error (.thrown error)))
    | .superseded => s.setPhase k (.settled (.error (.own managerDisposedError)))

/-- An activation goes on when what it awaits has settled. -/
def resume (k : ℕ) (factory : Option Error) (s : Manager Error) : Option (Manager Error) :=
  match (s.activations k).phase with
  | .woken previous => some (s.afterPrior k previous factory)
  | .waitDispose call next =>
    ((s.calls call).bind (·.result)).map fun result => s.afterDispose k next result factory
  | .initializing =>
    ((s.backends k).bind (·.initialization)).map fun result => s.afterInitialize k result
  | _ => none

/-- A call of `current`, which is rejected at once when the manager is closed. -/
def current (s : Manager Error) : Manager Error :=
  let next := { s with currentCount := s.currentCount + 1 }
  if s.closed then
    { next with currents :=
        Function.update s.currents s.currentCount (some (.rejected managerDisposedError)) }
  else
    { next with
      currents := Function.update s.currents s.currentCount (some .waiting) }.wait s.activation
        (.current s.currentCount)

/-- The end of a call of `current`. -/
def check (call : ℕ) (s : Manager Error) : Option (Manager Error) :=
  match s.currents call with
  | some (.checking backend) =>
    let outcome : Current Error :=
      if s.closed then .rejected managerDisposedError
      else match backend with
        | none => .rejected notSelectedError
        | some b => if s.activeBackend = some b then .resolved b else .rejected notSelectedError
    some { s with currents := Function.update s.currents call (some outcome) }
  | _ => none

def setDisposal (active : Option ℕ) (phase : DisposalPhase Error) (s : Manager Error) :
    Manager Error :=
  { s with disposal := some ⟨active, phase⟩ }

/-- The manager closed, and the active backend's `dispose` called. -/
def close (s : Manager Error) : Manager Error :=
  { s.disposeActive none with
    closed := true
    activationEpoch := s.activationEpoch + 1
    activeBackend := none }

def dispose (s : Manager Error) : Manager Error :=
  match s.disposal with
  | some _ => s
  | none =>
    match s.activeBackend with
    | some active => s.close.setDisposal (some active) (.waitActive s.callCount)
    | none => (s.close.setDisposal none .waitPending).wait s.activation .disposal

/-- The manager's disposal goes on when what it awaits has settled. -/
def resumeDisposal (s : Manager Error) : Option (Manager Error) :=
  match s.disposal with
  | some ⟨active, .waitActive call⟩ =>
    ((s.calls call).bind (·.result)).map fun result =>
      match result with
      | .error error => s.setDisposal active (.settled (.error error))
      | .ok () => (s.setDisposal active .waitPending).wait s.activation .disposal
  | some ⟨active, .woken late⟩ =>
    match late with
    | some backend =>
      if active ≠ some backend then
        some ((s.callDispose backend none).setDisposal active (.waitLate s.callCount))
      else some (s.setDisposal active (.settled (.ok ())))
    | none => some (s.setDisposal active (.settled (.ok ())))
  | some ⟨active, .waitLate call⟩ =>
    ((s.calls call).bind (·.result)).map fun result => s.setDisposal active (.settled result)
  | _ => none

/-- The first that waits for a settled activation goes on: a call of `current` with the backend, or
after a rejection with the one that is active then; another with the backend or nothing. -/
def react (k : ℕ) (s : Manager Error) : Option (Manager Error) :=
  match (s.activations k).phase, (s.activations k).waiters with
  | .settled result, waiter :: rest =>
    let popped := s.setActivation k { s.activations k with waiters := rest }
    let value : Option ℕ := match result with
      | .ok backend => backend
      | .error _ => none
    match waiter with
    | .current call =>
      let given := match result with
        | .ok backend => backend
        | .error _ => s.activeBackend
      some { popped with currents := Function.update s.currents call (some (.checking given)) }
    | .activation next => some (popped.setPhase next (.woken value))
    | .disposal => s.disposal.map fun d => popped.setDisposal d.active (.woken value)
  | _, _ => none

end Manager

/-! ## §3 Runs -/

inductive Event (Error : Type) where
  | activate (profile : BackendProfile)
  | current
  | dispose
  | initialized (backend : ℕ) (result : Except Error Unit)
  | disposed (call : ℕ) (result : Except Error Unit)
  | react (activation : ℕ)
  | resume (activation : ℕ) (factory : Option Error)
  | check (call : ℕ)
  | resumeDisposal

namespace Manager

def step (s : Manager Error) : Event Error → Option (Manager Error)
  | .activate profile => some (s.activate profile)
  | .current => some s.current
  | .dispose => some s.dispose
  | .initialized backend result =>
    match s.backends backend with
    | some ⟨identity, none⟩ =>
      some { s with
        backends := Function.update s.backends backend (some ⟨identity, some result⟩) }
    | _ => none
  | .disposed call result =>
    match s.calls call with
    | some ⟨backend, owner, none⟩ =>
      some { s with calls := Function.update s.calls call (some ⟨backend, owner, some result⟩) }
    | _ => none
  | .react k => s.react k
  | .resume k factory => s.resume k factory
  | .check call => s.check call
  | .resumeDisposal => s.resumeDisposal

/-- A backend has been created. -/
def Created (b : ℕ) (s : Manager Error) : Prop := (s.backends b).isSome = true

/-- Its `initialize` has succeeded. -/
def Initialized (b : ℕ) (s : Manager Error) : Prop :=
  ∃ identity, s.backends b = some ⟨identity, some (.ok ())⟩

/-- Its `dispose` has been called. -/
def DisposeCalled (b : ℕ) (s : Manager Error) : Prop :=
  ∃ c call, s.calls c = some call ∧ call.backend = b

/-- Every call of its `dispose` has settled. -/
def DisposeSettled (b : ℕ) (s : Manager Error) : Prop :=
  ∀ c call, s.calls c = some call → call.backend = b → call.result.isSome = true

/-- The manager's `dispose` has settled. -/
def DisposalSettled (s : Manager Error) : Prop :=
  ∃ active result, s.disposal = some ⟨active, .settled result⟩

end Manager

/-- What a step does not do: a backend is created, and initialized, only when every one before has
been disposed of; `current` resolves only to the initialized backend of the latest activation that
is not disposed of; and once the manager has been disposed of, so has every backend, and none is
created. -/
structure NeverOverlaps (s t : Manager Error) : Prop where
  initialization : ∀ b, t.Created b → ¬ s.Created b →
    ∀ other, s.Created other → s.DisposeCalled other ∧ s.DisposeSettled other
  current : ∀ c b, t.currents c = some (.resolved b) → s.currents c ≠ some (.resolved b) →
    b = s.activation ∧ s.Initialized b ∧ ¬ s.DisposeCalled b
  disposed : s.DisposalSettled →
    (∀ b, s.Created b → s.DisposeCalled b) ∧ ∀ b, t.Created b → s.Created b

end Kwiry.Plugin.Switching
