import Kwiry.Foundations.Doubles
import Kwiry.Foundations.Traces
import Kwiry.Plugin.LexicalStatus

/-!
# The In-Plugin Lexical Backend

The backend holds one Worker session and one index controller at a time, and replaces both when the
Worker fails. What its parties do comes as events: calls of the backend, callbacks of controllers,
and completions of what is awaited.
-/

namespace Kwiry.Plugin.Lexical

open Foundations

variable {Observation Activity Result : Type}

/-! ## §1 Options -/

/-- `Number.isSafeInteger(value) && value >= 1` -/
def isPositiveSafeInteger (value : Double) : Bool :=
  value.isNonNegativeSafeInteger ∧ ∀ negative, value ≠ .finite negative 0

structure BackendOptions where
  instanceId : Text
  /-- `cache.idleExportMs`, where there is a cache and it says so -/
  idleExportMs : Option Double
  enabledSourceFormats : Option (List SourceFormat)

def defaultIdleExportMs : Double := .finite false 2000

/-- Whether the constructor of the controller returns: of what it checks, the backend hands on only
the delay of exports. -/
def BackendOptions.constructs (options : BackendOptions) : Bool :=
  isPositiveSafeInteger (options.idleExportMs.getD defaultIdleExportMs)

def BackendOptions.identity (options : BackendOptions) : BackendIdentity :=
  ⟨.inPlugin, options.instanceId⟩

/-! ## §2 Data -/

/-- What a backend has done, as those around it see it. -/
inductive Output (Observation Activity Result : Type) where
  | sessionCreated (session : ℕ)
  | sessionTerminated (session : ℕ)
  | sessionCurrent (session : Option ℕ)
  | controllerStarted (controller : ℕ)
  | status (controller : Option ℕ) (status : BackendStatus)
  | firstProgress (controller : ℕ)
  | observation (controller : ℕ) (observation : Observation)
  | startFailed
  | activity (controller : ℕ) (activity : Activity)
  | diagnostic (controller : ℕ) (error : WorkerFailure)
  | clean
  | recovery
  | refused (error : KwiryBackendError)
  | answered (session : ℕ) (execution : SearchExecution Result)
  | disposeBegun
  | disposeFinished

/-- What the callbacks of a controller close over. -/
structure Controller where
  epoch : ℕ
  latestStatus : Option IndexControllerStatus

/-- A search that awaits the Worker. -/
structure PendingSearch where
  (session epoch : ℕ)
deriving DecidableEq

/-- The call of `dispose` that disposes: awaiting the shutdown of the controller it has taken, the
release of its store, or at its end. -/
inductive Disposal where
  | preparing (controller session : Option ℕ)
  | releasing
  | finished

structure Backend (Observation Activity Result : Type) where
  (session controller : Option ℕ)
  cachedStatus : BackendStatus
  epoch : ℕ
  (disposed recovering : Bool)
  automaticRecoveries : ℕ
  firstProgressObserved : Bool
  /-- the number of sessions made so far -/
  sessionCount : ℕ
  controllers : List Controller
  /-- the controllers whose `start` has not returned, the innermost first -/
  starting : List ℕ
  searches : List PendingSearch
  disposal : Option Disposal
  /-- the newest first -/
  record : List (Output Observation Activity Result)

namespace Backend

def create (options : BackendOptions) : Backend Observation Activity Result where
  session := none
  controller := none
  cachedStatus := baseStatus options.identity
  epoch := 0
  disposed := false
  recovering := false
  automaticRecoveries := 0
  firstProgressObserved := false
  sessionCount := 0
  controllers := []
  starting := []
  searches := []
  disposal := none
  record := []

/-! ## §3 What the backend does -/

variable (options : BackendOptions)

def emit (output : Output Observation Activity Result) (s : Backend Observation Activity Result) :
    Backend Observation Activity Result :=
  { s with record := output :: s.record }

/-- A status is told to the listeners; its origin is the controller it was made of, if one. -/
def publish (origin : Option ℕ) (status : BackendStatus) (s : Backend Observation Activity Result) :
    Backend Observation Activity Result :=
  if s.disposed = true ∧ status.phase ≠ .disposed then s
  else { s with cachedStatus := status }.emit (.status origin status)

def setSession (session : Option ℕ) (s : Backend Observation Activity Result) :
    Backend Observation Activity Result :=
  { s with session := session }.emit (.sessionCurrent session)

/-- `session?.forceDispose()` -/
def forceDispose (session : Option ℕ) (s : Backend Observation Activity Result) :
    Backend Observation Activity Result :=
  match session with
  | none => s
  | some session => s.emit (.sessionTerminated session)

/-- The controller goes first, so that what it reports while it is disposed is of no controller the
backend has. -/
def stopCurrentSession (s : Backend Observation Activity Result) :
    Backend Observation Activity Result :=
  ({ s with controller := none }.setSession none).forceDispose s.session

def publishUnavailable (s : Backend Observation Activity Result) :
    Backend Observation Activity Result :=
  { s with recovering := false }.publish none
    (unavailableStatus options.identity "worker_failed" "In-plugin search Worker failed.")

/-- The `catch` of `startController`. -/
def startFailed (s : Backend Observation Activity Result) : Backend Observation Activity Result :=
  (s.stopCurrentSession.publishUnavailable options).emit .startFailed

/-- The start of `startController`, up to its `try`. -/
def announceStart (recovering : Bool) (s : Backend Observation Activity Result) :
    Backend Observation Activity Result :=
  let stopped := s.stopCurrentSession
  { stopped with epoch := stopped.epoch + 1, recovering := recovering }.publish none
    (if recovering then recoveringStatus options.identity else baseStatus options.identity)

def createSession (s : Backend Observation Activity Result) : Backend Observation Activity Result :=
  { s with sessionCount := s.sessionCount + 1 }.emit (.sessionCreated s.sessionCount)

/-- A new controller, whose callbacks close over the epoch; its `start` runs. -/
def createController (s : Backend Observation Activity Result) :
    Backend Observation Activity Result :=
  let closure : Controller := ⟨s.epoch, none⟩
  { s with
    controller := some s.controllers.length
    controllers := s.controllers ++ [closure]
    starting := s.controllers.length :: s.starting }.emit (.controllerStarted s.controllers.length)

/-- `createSession` may throw, and so may the constructor of the controller; then the session that
was created is not the backend's yet. -/
def startController (recovering opens : Bool) (s : Backend Observation Activity Result) :
    Backend Observation Activity Result :=
  let announced := s.announceStart options recovering
  if !opens then announced.startFailed options
  else if !options.constructs then announced.createSession.startFailed options
  else (announced.createSession.setSession (some announced.sessionCount)).createController

def handleUncertainWorkerFailure (opens : Bool) (s : Backend Observation Activity Result) :
    Backend Observation Activity Result :=
  if s.disposed then s
  else if 1 ≤ s.automaticRecoveries then s.stopCurrentSession.publishUnavailable options
  else
    let counted := { s with automaticRecoveries := s.automaticRecoveries + 1 }.emit .recovery
    counted.startController options true opens

/-! ## §4 Calls -/

/-- `initialize` -/
def initialization (opens : Bool) (s : Backend Observation Activity Result) :
    Backend Observation Activity Result :=
  if s.disposed then s.emit (.refused disposedBackendError)
  else if s.controller.isSome then s
  else s.startController options false opens

/-- What a controller that is there does with the request, it reports by its callbacks. -/
def rebuild (opens : Bool) (s : Backend Observation Activity Result) :
    Backend Observation Activity Result :=
  if s.disposed then s.emit (.refused disposedBackendError)
  else
    let reset := { s with automaticRecoveries := 0 }.emit .clean
    if s.controller.isSome then reset else reset.startController options false opens

/-- A search up to the answer of the Worker. -/
def search (mode : SearchMode) (s : Backend Observation Activity Result) :
    Backend Observation Activity Result :=
  if s.disposed then s.emit (.refused disposedBackendError)
  else if mode ≠ .lexical then
    s.emit (.refused (backendError "mode_unavailable" .query false
      "In-plugin search supports lexical mode only." none))
  else if !s.cachedStatus.searchable then
    s.emit (.refused (backendError "index_building" .index true
      "In-plugin lexical index is still building." none))
  else match s.session with
    | none => s.emit (.refused (workerBackendError .other))
    | some session => { s with searches := ⟨session, s.epoch⟩ :: s.searches }

/-- A search from the answer of the Worker on. -/
def searched (entry : PendingSearch) (answer : Except WorkerFailure Result) (opens : Bool)
    (s : Backend Observation Activity Result) : Backend Observation Activity Result :=
  if s.disposed = true ∨ entry.epoch ≠ s.epoch ∨ some entry.session ≠ s.session then
    s.emit (.refused disposedBackendError)
  else match answer with
    | .ok response =>
      s.emit (.answered entry.session ⟨options.identity, .lexical, .lexical, response⟩)
    | .error failure =>
      if isUncertainWorkerFailure failure then
        (s.handleUncertainWorkerFailure options opens).emit (.refused recoveringBackendError)
      else s.emit (.refused (workerBackendError failure))

/-- `dispose` up to its first await. A second call returns at once. -/
def dispose (s : Backend Observation Activity Result) : Backend Observation Activity Result :=
  if s.disposed then s
  else
    let taken := { s with disposed := true, epoch := s.epoch + 1, controller := none }.emit
      .disposeBegun
    let released := taken.setSession none
    { released with
      recovering := false
      disposal := some (.preparing s.controller s.session) }.publish none
        (disposedStatus options.identity)

def finishDisposal (s : Backend Observation Activity Result) :
    Backend Observation Activity Result :=
  { s with disposal := some .finished }.emit .disposeFinished

/-- `dispose` after an await. -/
def resumeDisposal (s : Backend Observation Activity Result) :
    Option (Backend Observation Activity Result) :=
  match s.disposal with
  | some (.preparing controller session) =>
    let terminated := s.forceDispose session
    if controller.isSome then some { terminated with disposal := some .releasing }
    else some terminated.finishDisposal
  | some .releasing => some s.finishDisposal
  | some .finished | none => none

/-! ## §5 Callbacks -/

/-- `this.disposed || epoch !== this.epoch || controller !== this.controller` -/
def Stale (k : ℕ) (c : Controller) (s : Backend Observation Activity Result) : Prop :=
  s.disposed = true ∨ c.epoch ≠ s.epoch ∨ s.controller ≠ some k

instance (k : ℕ) (c : Controller) (s : Backend Observation Activity Result) :
    Decidable (s.Stale k c) := by
  unfold Stale
  infer_instance

def noteStatus (k : ℕ) (c : Controller) (status : IndexControllerStatus)
    (s : Backend Observation Activity Result) : Backend Observation Activity Result :=
  { s with controllers := s.controllers.set k ⟨c.epoch, some status⟩ }

def observeProgress (k : ℕ) (status : IndexControllerStatus)
    (s : Backend Observation Activity Result) : Backend Observation Activity Result :=
  if !s.firstProgressObserved && isMeaningfulControllerProgress status.progress then
    { s with firstProgressObserved := true }.emit (.firstProgress k)
  else s

/-- A clean state ends what counts as the last recovery. -/
def settle (status : IndexControllerStatus) (s : Backend Observation Activity Result) :
    Backend Observation Activity Result :=
  if status.settled then
    let settled := { s with recovering := false }
    if status.issue.all fun issue => !isCurrentCachePersistencePending issue.code then
      { settled with automaticRecoveries := 0 }.emit .clean
    else settled
  else s

def onStatus (k : ℕ) (c : Controller) (status : IndexControllerStatus)
    (s : Backend Observation Activity Result) : Backend Observation Activity Result :=
  if s.Stale k c then s
  else
    let settled := ((s.noteStatus k c status).observeProgress k status).settle status
    settled.publish (some k)
      (mapControllerStatus options.identity status settled.recovering options.enabledSourceFormats)

/-- A failure is classified before anything else, whichever controller it is of. -/
def onFailure (k : ℕ) (c : Controller) (error : WorkerFailure) (opens : Bool)
    (s : Backend Observation Activity Result) : Backend Observation Activity Result :=
  let classified := s.emit (.diagnostic k error)
  if classified.Stale k c then classified
  else if isUncertainWorkerFailure error then
    classified.handleUncertainWorkerFailure options opens
  else if classified.recovering then
    match c.latestStatus with
    | none => classified
    | some status =>
      { classified with recovering := false }.publish (some k)
        (mapControllerStatus options.identity status false options.enabledSourceFormats)
  else classified

def onStartupObservation (k : ℕ) (c : Controller) (observation : Observation)
    (s : Backend Observation Activity Result) : Backend Observation Activity Result :=
  if s.Stale k c then s else s.emit (.observation k observation)

def onVaultActivity (k : ℕ) (c : Controller) (activity : Activity)
    (s : Backend Observation Activity Result) : Backend Observation Activity Result :=
  if s.Stale k c then s else s.emit (.activity k activity)

end Backend

/-! ## §6 Events -/

inductive Callback (Observation Activity : Type) where
  | status (status : IndexControllerStatus)
  | failure (error : WorkerFailure) (opens : Bool)
  | observation (observation : Observation)
  | activity (activity : Activity)

/-- What happens next. Where it may start a controller, `opens` is whether a session can be
    created. -/
inductive Event (Observation Activity Result : Type) where
  | initialization (opens : Bool)
  | rebuild (opens : Bool)
  | search (mode : SearchMode)
  | searched (entry : PendingSearch) (answer : Except WorkerFailure Result) (opens : Bool)
  | dispose
  | disposal
  | callback (controller : ℕ) (callback : Callback Observation Activity)
  | started
  | startThrew

namespace Backend

variable (options : BackendOptions)

def called (k : ℕ) (c : Controller) (s : Backend Observation Activity Result) :
    Callback Observation Activity → Backend Observation Activity Result
  | .status status => s.onStatus options k c status
  | .failure error opens => s.onFailure options k c error opens
  | .observation observation => s.onStartupObservation k c observation
  | .activity activity => s.onVaultActivity k c activity

/-- The innermost `start` is left. -/
def startEnded (s : Backend Observation Activity Result) :
    Option (Backend Observation Activity Result) :=
  if s.starting = [] then none else some { s with starting := s.starting.tail }

/-- While a controller's `start` runs, it alone may call back; nothing calls the backend, and
nothing that is awaited completes. -/
def step (s : Backend Observation Activity Result) :
    Event Observation Activity Result → Option (Backend Observation Activity Result)
  | .initialization opens => if s.starting = [] then some (s.initialization options opens) else none
  | .rebuild opens => if s.starting = [] then some (s.rebuild options opens) else none
  | .search mode => if s.starting = [] then some (s.search mode) else none
  | .searched entry answer opens =>
    if s.starting = [] ∧ entry ∈ s.searches then
      some ({ s with searches := s.searches.erase entry }.searched options entry answer opens)
    else none
  | .dispose => if s.starting = [] then some (s.dispose options) else none
  | .disposal => if s.starting = [] then s.resumeDisposal else none
  | .callback k callback =>
    if s.starting.head?.all (· = k) then
      s.controllers[k]?.map fun c => s.called options k c callback
    else none
  | .started => s.startEnded
  | .startThrew => s.startEnded.map (startFailed options)

end Backend

/-! ## §7 What is asked -/

/-- The sessions whose Worker runs. -/
def liveSessions : List (Output Observation Activity Result) → List ℕ
  | [] => []
  | .sessionCreated session :: past => session :: liveSessions past
  | .sessionTerminated session :: past => (liveSessions past).erase session
  | _ :: past => liveSessions past

/-- The session the backend has. -/
def currentSession : List (Output Observation Activity Result) → Option ℕ
  | [] => none
  | .sessionCurrent session :: _ => session
  | _ :: past => currentSession past

/-- The automatic recoveries since the last clean state. -/
def recoveriesSinceClean : List (Output Observation Activity Result) → ℕ
  | [] => 0
  | .clean :: _ => 0
  | .recovery :: past => recoveriesSinceClean past + 1
  | _ :: past => recoveriesSinceClean past

/-- The controller whose status or observation is published. -/
def Output.origin : Output Observation Activity Result → Option ℕ
  | .status controller _ => controller
  | .firstProgress controller | .observation controller _ | .activity controller _ =>
    some controller
  | _ => none

/-- At every moment of a record: one Worker at most, and none after `dispose` has finished; one
automatic recovery at most between two clean states; hits from the current session only; and nothing
of a controller after a newer one or after `dispose`. -/
structure Sound (record : List (Output Observation Activity Result)) : Prop where
  live : ∀ past, past <:+ record → (liveSessions past).length ≤ 1
  disposed : ∀ past, past <:+ record → .disposeFinished ∈ past → liveSessions past = []
  recovers : ∀ past, past <:+ record → recoveriesSinceClean past ≤ 1
  answers : ∀ past session execution, .answered session execution :: past <:+ record →
    currentSession past = some session
  published : ∀ past output controller, output :: past <:+ record →
    output.origin = some controller →
      .disposeBegun ∉ past ∧ ∀ other, .controllerStarted other ∈ past → other ≤ controller

end Kwiry.Plugin.Lexical
