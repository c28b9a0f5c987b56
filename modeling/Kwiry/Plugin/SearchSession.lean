import Kwiry.Foundations.Traces
import Kwiry.Foundations.Unicode
import Kwiry.Plugin.Backend

/-!
# The Search Session

A controller serves the queries of a view. The latest query waits for a pause in typing and for the
request before it; a newer query, an accepted mode and disposal make it stale. A mode that is not
supported is refused, and changes nothing.
-/

namespace Kwiry.Plugin.Sessions

open Foundations List

/-! ## §1 Data -/

structure SearchSessionOptions (Filters : Type) where
  limit : ℕ
  filters : Option Filters

inductive SearchSessionOutcome (Response : Type) where
  | results (execution : SearchExecution Response)
  | empty
  | stale
  | error (error : KwiryBackendError)

structure PendingSearch (Filters : Type) where
  generation : ℕ
  trimmed : Text
  options : SearchSessionOptions Filters
  backendInstanceId : Text
  requestedMode : SearchMode
  dueReached : Bool

/-- A backend search, from its dispatch until the controller has dealt with its end. It is settled
once its call has been resolved. -/
structure Flight (Filters : Type) where
  entry : PendingSearch Filters
  request : SearchRequest Filters
  settled : Bool

/-- What callers do and get. A search call is named by its generation, which no other call has. -/
inductive Record (Response : Type) where
  | searchCall (generation : ℕ)
  | setModeCall (accepted : Bool)
  | disposeCall
  | resolved (generation : ℕ) (outcome : SearchSessionOutcome Response)

/-- A controller with the backend's identity, the timers that are armed, the searches in flight, and
the calls and their outcomes, the newest first. A timer is named by its entry. -/
structure SearchSession (Filters Response : Type) where
  generation : ℕ
  disposed : Bool
  mode : SearchMode
  pending : Option (PendingSearch Filters)
  timerHandle : Option ℕ
  activeInFlight : Bool
  identity : BackendIdentity
  armed : List ℕ
  flights : List (Flight Filters)
  log : List (Record Response)

variable {Filters Response : Type}

/-! ## §2 The controller -/

/-- What `trim` takes from both ends in JavaScript. -/
def isTrimmed (c : Char) : Bool :=
  (isWhitespace c && c.toNat != 0x85) || c.toNat == 0xfeff

def trimQuery (t : Text) : Text :=
  ((t.dropWhile isTrimmed).reverse.dropWhile isTrimmed).reverse

def PendingSearch.request (entry : PendingSearch Filters) : SearchRequest Filters :=
  ⟨entry.trimmed, entry.requestedMode, entry.options.limit, entry.options.filters⟩

def unsupportedBackendError (profile : BackendProfile) : KwiryBackendError where
  code := "mode_unavailable"
  profile := profile
  stage := .configuration
  retryable := false
  safeMessage := "The selected backend does not expose a search mode."
  failureCause := none

def modeUnavailableError (profile : BackendProfile) : KwiryBackendError where
  code := "mode_unavailable"
  profile := profile
  stage := .query
  retryable := false
  safeMessage := "The selected search mode is unavailable for this backend."
  failureCause := none

def disposedError (profile : BackendProfile) : KwiryBackendError where
  code := "disposed"
  profile := profile
  stage := .lifecycle
  retryable := false
  safeMessage := "The search session is disposed."
  failureCause := none

def internalError (profile : BackendProfile) : KwiryBackendError where
  code := "internal_error"
  profile := profile
  stage := .protocol
  retryable := false
  safeMessage := "The selected backend could not complete the search."
  failureCause := none

namespace SearchSession

/-- The constructor. -/
def create (supportedModes : List SearchMode) (initialMode : SearchMode)
    (identity : BackendIdentity) : Except KwiryBackendError (SearchSession Filters Response) :=
  match supportedModes with
  | [] => .error (unsupportedBackendError identity.profile)
  | first :: _ => .ok
    { generation := 0, disposed := false
      mode := if initialMode ∈ supportedModes then initialMode else first
      pending := none, timerHandle := none, activeInFlight := false, identity := identity
      armed := [], flights := [], log := [] }

def record (s : SearchSession Filters Response) (r : Record Response) :
    SearchSession Filters Response :=
  { s with log := r :: s.log }

def clearTimer (s : SearchSession Filters Response) : SearchSession Filters Response :=
  match s.timerHandle with
  | some handle => { s with armed := s.armed.erase handle, timerHandle := none }
  | none => s

def clearPending (s : SearchSession Filters Response) : SearchSession Filters Response :=
  match s.pending with
  | none => s
  | some entry => ({ s with pending := none }.clearTimer).record (.resolved entry.generation .stale)

/-- One call of `tryDispatch`; where it calls itself, it does so by `again`. -/
def dispatchWith (again : SearchSession Filters Response → SearchSession Filters Response)
    (s : SearchSession Filters Response) : SearchSession Filters Response :=
  if s.activeInFlight then s
  else match s.pending with
    | none => s
    | some entry =>
      if !entry.dueReached then s
      else if entry.backendInstanceId ≠ s.identity.instanceId then
        again ({ s with pending := none }.record (.resolved entry.generation .stale))
      else
        { s with
          pending := none
          activeInFlight := true
          flights := s.flights ++ [⟨entry, entry.request, false⟩] }

/-- It calls itself only with nothing pending. -/
def tryDispatch (s : SearchSession Filters Response) : SearchSession Filters Response :=
  dispatchWith (dispatchWith id) s

def setMode (supportedModes : List SearchMode) (mode : SearchMode)
    (s : SearchSession Filters Response) : SearchSession Filters Response :=
  if mode ∉ supportedModes then s.record (.setModeCall false)
  else
    { s.record (.setModeCall true) with generation := s.generation + 1, mode := mode }.clearPending

def search (supportedModes : List SearchMode) (query : Text)
    (options : SearchSessionOptions Filters) (s : SearchSession Filters Response) :
    SearchSession Filters Response :=
  let generation := s.generation + 1
  let s := { s.record (.searchCall generation) with generation := generation }
  if s.disposed then s.record (.resolved generation (.error (disposedError s.identity.profile)))
  else if trimQuery query = [] then s.clearPending.record (.resolved generation .empty)
  else if s.mode ∉ supportedModes then
    s.clearPending.record (.resolved generation (.error (modeUnavailableError s.identity.profile)))
  else
    let entry : PendingSearch Filters :=
      { generation := generation, trimmed := trimQuery query, options := options
        backendInstanceId := s.identity.instanceId, requestedMode := s.mode, dueReached := false }
    let s := s.clearPending
    { s with pending := some entry, timerHandle := some generation
             armed := generation :: s.armed }

def dispose (s : SearchSession Filters Response) : SearchSession Filters Response :=
  if s.disposed then s.record .disposeCall
  else
    { s.record .disposeCall with disposed := true, generation := s.generation + 1 }.clearPending

/-- The callback of a timer. -/
def fire (handle : ℕ) (s : SearchSession Filters Response) : SearchSession Filters Response :=
  let s := { s with armed := s.armed.erase handle, timerHandle := none }
  match s.pending with
  | none => s
  | some entry =>
    if entry.generation ≠ handle then s
    else { s with pending := some { entry with dueReached := true } }.tryDispatch

/-- The outcome that `runSearch` gives the caller: of an execution, or of an error, where another
thrown value than a backend error is none. -/
def runSearch (entry : PendingSearch Filters) (s : SearchSession Filters Response) :
    Except (Option KwiryBackendError) (SearchExecution Response) → SearchSessionOutcome Response
  | .ok execution =>
    if s.disposed ∨ entry.generation ≠ s.generation
        ∨ entry.backendInstanceId ≠ s.identity.instanceId
        ∨ execution.backend.instanceId ≠ entry.backendInstanceId
        ∨ execution.requestedMode ≠ entry.requestedMode
        ∨ execution.effectiveMode ≠ entry.requestedMode then .stale
    else .results execution
  | .error error =>
    if s.disposed ∨ entry.generation ≠ s.generation ∨ ∃ e ∈ error, e.code = "disposed" then .stale
    else .error (error.getD (internalError s.identity.profile))

end SearchSession

/-! ## §3 Runs -/

/-- Calls, timers, the ends of backend searches, what the controller does after each, and a backend
that becomes another one. -/
inductive Event (Filters Response : Type) where
  | search (query : Text) (options : SearchSessionOptions Filters)
  | setMode (mode : SearchMode)
  | dispose
  | fire (handle : ℕ)
  | complete (generation : ℕ)
      (result : Except (Option KwiryBackendError) (SearchExecution Response))
  | finish (generation : ℕ)
  | drift (identity : BackendIdentity)

namespace SearchSession

def settleFlight (generation : ℕ) (flights : List (Flight Filters)) : List (Flight Filters) :=
  flights.map fun flight =>
    if flight.entry.generation = generation then { flight with settled := true } else flight

/-- The rest of `runSearch` after the backend's answer. -/
def complete (flight : Flight Filters)
    (result : Except (Option KwiryBackendError) (SearchExecution Response))
    (s : SearchSession Filters Response) : SearchSession Filters Response :=
  { s with flights := settleFlight flight.entry.generation s.flights }.record
    (.resolved flight.entry.generation (runSearch flight.entry s result))

/-- What follows a search, whatever its end. -/
def finish (generation : ℕ) (s : SearchSession Filters Response) : SearchSession Filters Response :=
  { s with
    flights := s.flights.filter fun other => other.entry.generation ≠ generation
    activeInFlight := false }.tryDispatch

def step (supportedModes : List SearchMode) (s : SearchSession Filters Response) :
    Event Filters Response → Option (SearchSession Filters Response)
  | .search query options => some (s.search supportedModes query options)
  | .setMode mode => some (s.setMode supportedModes mode)
  | .dispose => some s.dispose
  | .fire handle => if handle ∈ s.armed then some (s.fire handle) else none
  | .complete generation result =>
    (s.flights.find? fun flight => flight.entry.generation = generation ∧ !flight.settled).map
      fun flight => s.complete flight result
  | .finish generation =>
    if ∃ flight ∈ s.flights, flight.entry.generation = generation ∧ flight.settled then
      some (s.finish generation)
    else none
  | .drift identity => some { s with identity := identity }

end SearchSession

/-! ## §4 What a session owes its callers -/

/-- A call of any kind, also one that is refused. -/
def Record.IsCall : Record Response → Prop
  | .searchCall _ | .setModeCall _ | .disposeCall => True
  | .resolved _ _ => False

/-- A call that makes the searches before it stale: all but a mode that is refused. -/
def Record.Supersedes : Record Response → Prop
  | .searchCall _ | .setModeCall true | .disposeCall => True
  | .setModeCall false | .resolved _ _ => False

def Record.resolves (generation : ℕ) : Record Response → Bool
  | .resolved g _ => g == generation
  | _ => false

/-- How often a call has been resolved. -/
def resolutions (generation : ℕ) (log : List (Record Response)) : ℕ :=
  log.countP (Record.resolves generation)

/-- The search call is in the log, and after it no call of a kind. -/
def Newest (later : Record Response → Prop) (generation : ℕ) (log : List (Record Response)) :
    Prop :=
  ∃ after before, log = after ++ .searchCall generation :: before ∧ ∀ r ∈ after, ¬ later r

/-- Results go to a call only if no call of a kind was made before it was resolved. -/
def ResultsNewest (later : Record Response → Prop) (log : List (Record Response)) : Prop :=
  ∀ after generation execution before,
    log = after ++ .resolved generation (.results execution) :: before →
      Newest later generation before

/-- At most one backend search is in flight, each call is resolved at most once, results go to the
newest call alone, and where nothing is under way no call is left unresolved. -/
structure Serves (later : Record Response → Prop) (s : SearchSession Filters Response) : Prop where
  single : s.flights.length ≤ 1
  once : ∀ generation, resolutions generation s.log ≤ 1
  newest : ResultsNewest later s.log
  answered : s.armed = [] → s.flights = [] → ∀ generation,
    .searchCall generation ∈ s.log → 0 < resolutions generation s.log

/-! ## §5 Logs -/

variable {r : Record Response}

variable {g : ℕ}

section Logs

variable {log : List (Record Response)} {later : Record Response → Prop}

lemma Newest.cons {generation : ℕ} (h : Newest later generation log) (hr : ¬ later r) :
    Newest later generation (r :: log) := by
  obtain ⟨after, before, rfl, hafter⟩ := h
  exact ⟨r :: after, before, rfl, forall_mem_cons.mpr ⟨hr, hafter⟩⟩

lemma ResultsNewest.cons (h : ResultsNewest later log)
    (hr : ∀ generation execution, r = .resolved generation (.results execution) →
      Newest later generation log) : ResultsNewest later (r :: log) := by
  intro after generation execution before hlog
  cases after with
  | nil =>
    injection hlog with hhead htail
    rw [← htail]
    exact hr generation execution hhead
  | cons first after =>
    injection hlog with _ htail
    exact h after generation execution before htail

/-- The calls that are open are those made and not resolved; the others are resolved once, and what
was never called is not resolved. -/
structure Ledger (waiting : List ℕ) (log : List (Record Response)) : Prop where
  nodup : waiting.Nodup
  called : ∀ g ∈ waiting, .searchCall g ∈ log
  unresolved : ∀ g ∈ waiting, resolutions g log = 0
  resolved : ∀ g ∉ waiting, .searchCall g ∈ log → resolutions g log = 1
  uncalled : ∀ g, .searchCall g ∉ log → resolutions g log = 0

namespace Ledger

variable {waiting : List ℕ}

lemma perm {other : List ℕ} (h : Ledger waiting log) (hperm : waiting.Perm other) :
    Ledger other log where
  nodup := hperm.nodup_iff.mp h.nodup
  called g hg := h.called g (hperm.mem_iff.mpr hg)
  unresolved g hg := h.unresolved g (hperm.mem_iff.mpr hg)
  resolved g hg := h.resolved g (mt hperm.mem_iff.mp hg)
  uncalled := h.uncalled

lemma call (h : Ledger waiting log) (hnew : .searchCall g ∉ log) :
    Ledger (g :: waiting) (.searchCall g :: log) := by
  have hcount : ∀ k, resolutions k (.searchCall g :: log) = resolutions k log := fun k =>
    countP_cons_of_neg (by simp [Record.resolves])
  have hmem : ∀ k, k ≠ g → (Record.searchCall k ∈ Record.searchCall g :: log ↔
      Record.searchCall k ∈ log) := fun k hk => by simp [hk]
  refine ⟨nodup_cons.mpr ⟨fun hg => hnew (h.called g hg), h.nodup⟩, ?_, ?_, ?_, ?_⟩
  · intro k hk
    rcases mem_cons.mp hk with rfl | hk
    · exact mem_cons_self
    · exact mem_cons_of_mem _ (h.called k hk)
  · intro k hk
    rw [hcount]
    rcases mem_cons.mp hk with rfl | hk
    · exact h.uncalled k hnew
    · exact h.unresolved k hk
  · intro k hk hcalled
    obtain ⟨hne, hk⟩ := not_or.mp (mt mem_cons.mpr hk)
    rw [hcount]
    exact h.resolved k hk ((hmem k hne).mp hcalled)
  · intro k hk
    rw [hcount]
    exact h.uncalled k fun hcalled => hk (mem_cons_of_mem _ hcalled)

lemma resolve (h : Ledger (g :: waiting) log) (outcome : SearchSessionOutcome Response) :
    Ledger waiting (.resolved g outcome :: log) := by
  obtain ⟨hg, hnodup⟩ := nodup_cons.mp h.nodup
  have hcount : ∀ k, k ≠ g → resolutions k (.resolved g outcome :: log) = resolutions k log :=
    fun k hk => countP_cons_of_neg (by simp [Record.resolves, Ne.symm hk])
  have hself : resolutions g (.resolved g outcome :: log) = resolutions g log + 1 :=
    countP_cons_of_pos (by simp [Record.resolves])
  have hmem : ∀ k, Record.searchCall k ∈ Record.resolved g outcome :: log ↔
      Record.searchCall k ∈ log := fun k => by simp
  refine ⟨hnodup, ?_, ?_, ?_, ?_⟩
  · intro k hk
    exact (hmem k).mpr (h.called k (mem_cons_of_mem g hk))
  · intro k hk
    rw [hcount k fun hkg => hg (hkg ▸ hk)]
    exact h.unresolved k (mem_cons_of_mem g hk)
  · intro k hk hcalled
    by_cases hkg : k = g
    · rw [hkg, hself, h.unresolved g mem_cons_self]
    · rw [hcount k hkg]
      exact h.resolved k (by simp [hkg, hk]) ((hmem k).mp hcalled)
  · intro k hk
    have hcalled := mt (hmem k).mpr hk
    have hkg : k ≠ g := by
      rintro rfl
      exact hcalled (h.called k mem_cons_self)
    rw [hcount k hkg]
    exact h.uncalled k hcalled

lemma other (h : Ledger waiting log) (hcall : ∀ g, r ≠ .searchCall g)
    (hresolved : ∀ g, r.resolves g = false) : Ledger waiting (r :: log) := by
  have hcount : ∀ k, resolutions k (r :: log) = resolutions k log := fun k =>
    countP_cons_of_neg (by simp [hresolved])
  have hmem : ∀ k, Record.searchCall k ∈ r :: log ↔ Record.searchCall k ∈ log := fun k => by
    simp [(hcall k).symm]
  refine ⟨h.nodup, ?_, ?_, ?_, ?_⟩
  · exact fun k hk => (hmem k).mpr (h.called k hk)
  · exact fun k hk => (hcount k).trans (h.unresolved k hk)
  · exact fun k hk hcalled => (hcount k).trans (h.resolved k hk ((hmem k).mp hcalled))
  · exact fun k hk => (hcount k).trans (h.uncalled k (mt (hmem k).mpr hk))

end Ledger

end Logs

/-! ## §6 Invariants -/

namespace SearchSession

variable {s : SearchSession Filters Response}

/-- A timer is armed exactly for the pending search whose pause has not passed. -/
structure Timers (s : SearchSession Filters Response) : Prop where
  armed : s.armed = s.timerHandle.toList
  timer : ∀ handle, s.timerHandle = some handle →
    ∃ entry, s.pending = some entry ∧ entry.dueReached = false ∧ handle = entry.generation
  pending : ∀ entry, s.pending = some entry → entry.dueReached = false →
    s.timerHandle = some entry.generation

/-- The calls that are open: of the pending search and of the one in flight. -/
def waiting (s : SearchSession Filters Response) : List ℕ :=
  s.pending.toList.map (·.generation) ++
    (s.flights.filter (!·.settled)).map (·.entry.generation)

/-- What holds also before a pending search is dispatched that could be. -/
structure Steady (s : SearchSession Filters Response) : Prop where
  timers : Timers s
  pendingNewest : ∀ entry, s.pending = some entry → entry.generation = s.generation
  disposedIdle : s.disposed = true → s.pending = none
  active : s.activeInFlight = true ↔ s.flights ≠ []
  single : s.flights.length ≤ 1
  older : ∀ flight ∈ s.flights, flight.entry.generation ≤ s.generation ∧
    (s.pending ≠ none → flight.entry.generation < s.generation)
  ledger : Ledger s.waiting s.log
  bounded : ∀ g, .searchCall g ∈ s.log → g ≤ s.generation
  current : s.disposed = false → .searchCall s.generation ∈ s.log →
    Newest Record.Supersedes s.generation s.log
  newest : ResultsNewest Record.Supersedes s.log

/-- A pending search whose pause has passed waits for one in flight. -/
structure Invariant (s : SearchSession Filters Response) : Prop extends Steady s where
  waits : ∀ entry, s.pending = some entry → entry.dueReached = true → s.flights ≠ []

/-- The outcome of a pending search that is cleared. -/
def staleRecords (pending : Option (PendingSearch Filters)) : List (Record Response) :=
  pending.toList.map fun entry => .resolved entry.generation .stale

lemma clearPending_eq (h : Timers s) :
    s.clearPending =
      { s with pending := none, timerHandle := none, armed := []
               log := staleRecords s.pending ++ s.log } := by
  obtain ⟨generation, disposed, mode, pending, timerHandle, activeInFlight, identity, armed,
    flights, log⟩ := s
  obtain ⟨harmed, htimer, -⟩ := h
  dsimp only at harmed htimer
  cases timerHandle with
  | none =>
    subst harmed
    cases pending <;> rfl
  | some handle =>
    obtain ⟨entry, rfl, -, rfl⟩ := htimer handle rfl
    subst harmed
    simp [clearPending, clearTimer, record, staleRecords]

/-- A call of `tryDispatch` changes nothing, or makes the pending search stale, or dispatches it. -/
theorem tryDispatch_cases (s : SearchSession Filters Response) :
    (s.tryDispatch = s ∧ (s.activeInFlight = true ∨
        ∀ entry, s.pending = some entry → entry.dueReached = false)) ∨
      ∃ entry, s.pending = some entry ∧ entry.dueReached = true ∧ s.activeInFlight = false ∧
        (s.tryDispatch = { s with pending := none
                                  log := .resolved entry.generation .stale :: s.log } ∨
          s.tryDispatch = { s with pending := none, activeInFlight := true
                                   flights := s.flights ++ [⟨entry, entry.request, false⟩] }) := by
  obtain ⟨generation, disposed, mode, pending, timerHandle, activeInFlight, identity, armed,
    flights, log⟩ := s
  cases activeInFlight with
  | true => exact .inl ⟨rfl, .inl rfl⟩
  | false =>
    cases pending with
    | none => exact .inl ⟨rfl, .inr nofun⟩
    | some entry =>
      cases hdue : entry.dueReached with
      | false =>
        refine .inl ⟨by simp [tryDispatch, dispatchWith, hdue], .inr ?_⟩
        intro other hother
        cases hother
        exact hdue
      | true =>
        refine .inr ⟨entry, rfl, hdue, rfl, ?_⟩
        by_cases hdrift : entry.backendInstanceId = identity.instanceId
        · right
          simp [tryDispatch, dispatchWith, hdue, hdrift]
        · left
          simp [tryDispatch, dispatchWith, hdue, hdrift, record]

lemma waiting_of_pending {entry : PendingSearch Filters} (hentry : s.pending = some entry) :
    s.waiting = entry.generation ::
      (s.flights.filter (!·.settled)).map (·.entry.generation) := by
  rw [waiting, hentry]
  rfl

lemma waiting_of_none (hnone : s.pending = none) :
    s.waiting = (s.flights.filter (!·.settled)).map (·.entry.generation) := by
  rw [waiting, hnone]
  rfl

/-- What a record of an outcome other than results leaves. -/
theorem newest_stale {log : List (Record Response)} {later : Record Response → Prop}
    (h : ResultsNewest later log) {outcome : SearchSessionOutcome Response}
    (houtcome : ∀ execution, outcome ≠ .results execution) :
    ResultsNewest later (.resolved g outcome :: log) := by
  apply h.cons
  intro generation execution hr
  injection hr with _ hr
  exact absurd hr (houtcome execution)

lemma Steady.tryDispatch (h : Steady s) : Invariant s.tryDispatch := by
  rcases tryDispatch_cases s with ⟨hsame, hwhy⟩ | ⟨entry, hentry, hdue, hidle, hnext⟩
  · rw [hsame]
    refine ⟨h, fun entry hentry hdue => ?_⟩
    rcases hwhy with hactive | hpause
    · exact h.active.mp hactive
    · exact absurd (hdue.symm.trans (hpause entry hentry)) (by decide)
  · have hflights : s.flights = [] := by
      by_contra hne
      exact absurd (hidle.symm.trans (h.active.mpr hne)) (by decide)
    have htimer : s.timerHandle = none := by
      cases hhandle : s.timerHandle with
      | none => rfl
      | some handle =>
        obtain ⟨other, hother, hpause, -⟩ := h.timers.timer handle hhandle
        rw [hentry] at hother
        cases hother
        exact absurd (hdue.symm.trans hpause) (by decide)
    have htimers : ∀ t : SearchSession Filters Response, t.pending = none →
        t.timerHandle = s.timerHandle → t.armed = s.armed → Timers t := by
      intro t hpending hhandle harmed
      refine ⟨by rw [harmed, hhandle]; exact h.timers.armed, ?_, ?_⟩
      · intro handle hsome
        rw [hhandle, htimer] at hsome
        cases hsome
      · intro other hother
        rw [hpending] at hother
        cases hother
    have hledger : Ledger [entry.generation] s.log := by
      have hwaiting := waiting_of_pending hentry
      rw [hflights] at hwaiting
      exact hwaiting ▸ h.ledger
    rcases hnext with hdrift | hdispatched
    · rw [hdrift]
      refine ⟨⟨htimers _ rfl rfl rfl, nofun, fun _ => rfl, h.active, h.single, ?_, ?_, ?_, ?_, ?_⟩,
        nofun⟩
      · exact fun flight hflight => absurd (hflights ▸ hflight) (by simp)
      · show Ledger (waiting _) _
        rw [waiting_of_none rfl, hflights]
        exact hledger.resolve .stale
      · intro g hg
        exact h.bounded g (by simpa using hg)
      · intro hdisposed hcalled
        exact (h.current hdisposed (by simpa using hcalled)).cons (by simp [Record.Supersedes])
      · exact newest_stale h.newest (by simp)
    · rw [hdispatched]
      refine ⟨⟨htimers _ rfl rfl rfl, nofun, fun _ => rfl, ?_, ?_, ?_, ?_, h.bounded, h.current,
        h.newest⟩, nofun⟩
      · simp
      · simp [hflights]
      · intro flight hflight
        rw [hflights, nil_append, mem_singleton] at hflight
        rw [hflight]
        exact ⟨(h.pendingNewest entry hentry).le, fun hne => absurd rfl hne⟩
      · show Ledger (waiting _) _
        rw [waiting_of_none rfl, hflights]
        exact hledger

variable {pending : Option (PendingSearch Filters)} {supportedModes : List SearchMode}

/-- Clearing what is pending, after the log has been extended by a call and the call counted. -/
theorem ledger_stale {rest : List ℕ} {log : List (Record Response)}
    (h : Ledger (pending.toList.map (·.generation) ++ rest) log) :
    Ledger rest (staleRecords pending ++ log) := by
  cases pending with
  | none => exact h
  | some entry => exact h.resolve .stale

lemma mem_staleRecords (hr : r ∈ staleRecords pending) : ∃ g, r = .resolved g .stale := by
  obtain ⟨entry, -, rfl⟩ := mem_map.mp hr
  exact ⟨entry.generation, rfl⟩

lemma newest_staleRecords {log : List (Record Response)} {later : Record Response → Prop}
    (h : ResultsNewest later log) : ResultsNewest later (staleRecords pending ++ log) := by
  cases pending with
  | none => exact h
  | some entry => exact newest_stale h (by simp)

lemma searchCall_mem_stale {log : List (Record Response)} :
    .searchCall g ∈ staleRecords pending ++ log ↔ .searchCall g ∈ log := by
  cases pending <;> simp [staleRecords]

variable {t : SearchSession Filters Response}

/-- A session with nothing pending and a generation later. -/
theorem Invariant.cleared (h : Invariant s) (hgeneration : t.generation = s.generation + 1)
    (hpending : t.pending = none) (htimer : t.timerHandle = none) (harmed : t.armed = [])
    (hactive : t.activeInFlight = s.activeInFlight) (hflights : t.flights = s.flights)
    (hledger : Ledger ((s.flights.filter (!·.settled)).map (·.entry.generation)) t.log)
    (hbounded : ∀ g, .searchCall g ∈ t.log → g ≤ t.generation)
    (hcurrent : t.disposed = false → .searchCall t.generation ∈ t.log →
      Newest Record.Supersedes t.generation t.log)
    (hnewest : ResultsNewest Record.Supersedes t.log) : Invariant t where
  timers := ⟨by rw [harmed, htimer]; rfl, fun handle hsome => by simp [htimer] at hsome,
    fun entry hentry => by simp [hpending] at hentry⟩
  pendingNewest entry hentry := by simp [hpending] at hentry
  disposedIdle _ := hpending
  active := by rw [hactive, hflights]; exact h.active
  single := by rw [hflights]; exact h.single
  older flight hflight := by
    have hold := (h.older flight (hflights ▸ hflight)).1
    exact ⟨by omega, fun hne => absurd hpending hne⟩
  ledger := by rw [waiting_of_none hpending, hflights]; exact hledger
  bounded := hbounded
  current := hcurrent
  newest := hnewest
  waits entry hentry := by simp [hpending] at hentry

/-- A record of what changes nothing else. -/
theorem Invariant.recorded (h : Invariant s) (hledger : Ledger s.waiting (r :: s.log))
    (hcall : ∀ g, r ≠ .searchCall g) (hcurrent : s.disposed = false → ¬ r.Supersedes)
    (hnewest : ResultsNewest Record.Supersedes (r :: s.log)) : Invariant (s.record r) := by
  have hmem : ∀ g, Record.searchCall g ∈ r :: s.log → Record.searchCall g ∈ s.log := by
    intro g hg
    rcases mem_cons.mp hg with hr | hg
    · exact absurd hr.symm (hcall g)
    · exact hg
  refine ⟨⟨⟨h.timers.armed, h.timers.timer, h.timers.pending⟩, h.pendingNewest, h.disposedIdle,
    h.active, h.single, h.older, hledger, fun g hg => h.bounded g (hmem g hg), ?_, hnewest⟩,
    h.waits⟩
  intro hdisposed hcalled
  exact (h.current hdisposed (hmem _ hcalled)).cons (hcurrent hdisposed)

lemma setMode_accepted {mode : SearchMode} (hmode : mode ∈ supportedModes) (h : Timers s) :
    s.setMode supportedModes mode =
      { s with generation := s.generation + 1, mode := mode, pending := none, timerHandle := none
               armed := [], log := staleRecords s.pending ++ .setModeCall true :: s.log } := by
  rw [SearchSession.setMode, if_neg (not_not.mpr hmode), clearPending_eq]
  · rfl
  · exact ⟨h.armed, h.timer, h.pending⟩

lemma dispose_first (hdisposed : s.disposed = false) (h : Timers s) :
    s.dispose =
      { s with generation := s.generation + 1, disposed := true, pending := none
               timerHandle := none, armed := []
               log := staleRecords s.pending ++ .disposeCall :: s.log } := by
  rw [SearchSession.dispose, if_neg (by simp [hdisposed]), clearPending_eq]
  · rfl
  · exact ⟨h.armed, h.timer, h.pending⟩

lemma Invariant.setMode (h : Invariant s) (supportedModes : List SearchMode)
    (mode : SearchMode) : Invariant (s.setMode supportedModes mode) := by
  by_cases hmode : mode ∈ supportedModes
  · rw [setMode_accepted hmode h.timers]
    have hbounded : ∀ g, .searchCall g ∈ staleRecords s.pending ++ .setModeCall true :: s.log →
        g ≤ s.generation := fun g hg =>
      h.bounded g (by simpa using searchCall_mem_stale.mp hg)
    refine h.cleared rfl rfl rfl rfl rfl rfl ?_ ?_ ?_ ?_
    · exact ledger_stale (h.ledger.other (by simp) fun _ => rfl)
    · exact fun g hg => (hbounded g hg).trans (Nat.le_succ _)
    · exact fun _ hcalled => absurd (hbounded _ hcalled) (Nat.not_succ_le_self _)
    · exact newest_staleRecords (h.newest.cons nofun)
  · rw [SearchSession.setMode, if_pos hmode]
    apply h.recorded
    · exact h.ledger.other (by simp) fun _ => rfl
    · simp
    · simp [Record.Supersedes]
    · exact h.newest.cons nofun

lemma Invariant.dispose (h : Invariant s) : Invariant s.dispose := by
  cases hdisposed : s.disposed with
  | true =>
    rw [SearchSession.dispose, if_pos hdisposed]
    apply h.recorded
    · exact h.ledger.other (by simp) fun _ => rfl
    · simp
    · simp [hdisposed]
    · exact h.newest.cons nofun
  | false =>
    rw [dispose_first hdisposed h.timers]
    refine h.cleared rfl rfl rfl rfl rfl rfl ?_ ?_ ?_ ?_
    · exact ledger_stale (h.ledger.other (by simp) fun _ => rfl)
    · intro g hg
      exact (h.bounded g (by simpa using searchCall_mem_stale.mp hg)).trans (Nat.le_succ _)
    · exact nofun
    · exact newest_staleRecords (h.newest.cons nofun)

lemma Invariant.ledger_call (h : Invariant s) :
    Ledger ((s.generation + 1) :: s.waiting) (.searchCall (s.generation + 1) :: s.log) :=
  h.ledger.call fun hcalled => absurd (h.bounded _ hcalled) (Nat.not_succ_le_self _)

/-- The new call with the pending search cleared. -/
theorem Invariant.ledger_replaced (h : Invariant s) :
    Ledger ((s.generation + 1) :: (s.flights.filter (!·.settled)).map (·.entry.generation))
      (staleRecords s.pending ++ .searchCall (s.generation + 1) :: s.log) :=
  ledger_stale (h.ledger_call.perm perm_middle.symm)

lemma Invariant.bounded_call (h : Invariant s)
    (hg : .searchCall g ∈ staleRecords s.pending ++ .searchCall (s.generation + 1) :: s.log) :
    g ≤ s.generation + 1 := by
  rcases mem_cons.mp (searchCall_mem_stale.mp hg) with hnew | hold
  · injection hnew with hnew
    exact hnew.le
  · exact (h.bounded g hold).trans (Nat.le_succ _)

/-- The new call is the newest. -/
theorem newest_call (pending : Option (PendingSearch Filters)) (log : List (Record Response))
    (g : ℕ) : Newest Record.Supersedes g (staleRecords pending ++ .searchCall g :: log) := by
  refine ⟨staleRecords pending, log, rfl, fun r hr => ?_⟩
  obtain ⟨_, rfl⟩ := mem_staleRecords hr
  exact fun h => h

/-- A call that is answered at once. -/
theorem Invariant.answered (h : Invariant s) (outcome : SearchSessionOutcome Response)
    (houtcome : ∀ execution, outcome ≠ .results execution) (ht : t = { s with
      generation := s.generation + 1, pending := none, timerHandle := none, armed := []
      log := .resolved (s.generation + 1) outcome :: (staleRecords s.pending ++
        .searchCall (s.generation + 1) :: s.log) }) : Invariant t := by
  rw [ht]
  refine h.cleared rfl rfl rfl rfl rfl rfl ?_ ?_ ?_ ?_
  · exact h.ledger_replaced.resolve outcome
  · exact fun g hg => h.bounded_call (by simpa using hg)
  · exact fun _ _ => (newest_call s.pending s.log _).cons (by simp [Record.Supersedes])
  · have hcalled : ResultsNewest Record.Supersedes (.searchCall (s.generation + 1) :: s.log) :=
      h.newest.cons nofun
    exact newest_stale (newest_staleRecords hcalled) houtcome

lemma Invariant.search (h : Invariant s) (supportedModes : List SearchMode) (query : Text)
    (options : SearchSessionOptions Filters) :
    Invariant (s.search supportedModes query options) := by
  have htimers : Timers { s.record (.searchCall (s.generation + 1)) with
      generation := s.generation + 1 } := ⟨h.timers.armed, h.timers.timer, h.timers.pending⟩
  rw [SearchSession.search]
  dsimp only
  split
  · next hdisposed =>
    -- a session that is disposed of has nothing pending, and no timer
    have hnone : s.pending = none := h.disposedIdle hdisposed
    have htimer : s.timerHandle = none := by
      cases hhandle : s.timerHandle with
      | none => rfl
      | some handle =>
        obtain ⟨entry, hentry, -⟩ := h.timers.timer handle hhandle
        rw [hnone] at hentry
        cases hentry
    have harmed : s.armed = [] := by rw [h.timers.armed, htimer]; rfl
    refine h.answered (.error (disposedError s.identity.profile)) (by simp) ?_
    simp [record, staleRecords, hnone, htimer, harmed]
  · split
    · rw [clearPending_eq htimers]
      exact h.answered .empty (by simp) rfl
    · split
      · rw [clearPending_eq htimers]
        exact h.answered (.error (modeUnavailableError s.identity.profile)) (by simp) rfl
      · rw [clearPending_eq htimers]
        refine ⟨⟨⟨rfl, ?_, ?_⟩, ?_, ?_, h.active, h.single, ?_, h.ledger_replaced,
          fun g => h.bounded_call, fun _ _ => newest_call s.pending s.log _,
          newest_staleRecords (h.newest.cons nofun)⟩, ?_⟩
        · intro handle hhandle
          cases hhandle
          exact ⟨_, rfl, rfl, rfl⟩
        · intro entry hentry _
          cases hentry
          rfl
        · intro entry hentry
          cases hentry
          rfl
        · next hlive _ _ =>
          intro hdisposed
          exact absurd hdisposed hlive
        · intro flight hflight
          have hold := (h.older flight hflight).1
          exact ⟨hold.trans (Nat.le_succ _), fun _ => Nat.lt_succ_of_le hold⟩
        · intro entry hentry hdue
          cases hentry
          cases hdue

lemma Invariant.fire (h : Invariant s) {handle : ℕ} (harmed : handle ∈ s.armed) :
    Invariant (s.fire handle) := by
  have hhandle : s.timerHandle = some handle := by
    rw [h.timers.armed] at harmed
    exact Option.mem_toList.mp harmed
  obtain ⟨entry, hentry, hpause, rfl⟩ := h.timers.timer handle hhandle
  have hrest : s.armed.erase entry.generation = [] := by
    rw [h.timers.armed, hhandle]
    simp
  rw [SearchSession.fire]
  simp only [hentry, ne_eq, not_true_eq_false, if_false, hrest]
  apply Steady.tryDispatch
  have hwaiting : s.waiting = waiting { s with
      armed := [], timerHandle := none, pending := some { entry with dueReached := true } } := by
    rw [waiting, waiting, hentry]
    rfl
  refine ⟨⟨rfl, nofun, ?_⟩, ?_, ?_, h.active, h.single, ?_, hwaiting ▸ h.ledger, h.bounded,
    h.current, h.newest⟩
  · intro other hother hpause
    cases hother
    cases hpause
  · intro other hother
    cases hother
    exact h.pendingNewest entry hentry
  · intro hdisposed
    exact absurd (hentry.symm.trans (h.disposedIdle hdisposed)) (by simp)
  · intro flight hflight
    obtain ⟨hle, hlt⟩ := h.older flight hflight
    exact ⟨hle, fun _ => hlt (by simp [hentry])⟩

variable {flight : Flight Filters}

lemma Steady.flights_eq (h : Steady s) (hflight : flight ∈ s.flights) : s.flights = [flight] := by
  have hsingle := h.single
  match hflights : s.flights with
  | [] => simp [hflights] at hflight
  | [only] =>
    rw [hflights, mem_singleton] at hflight
    rw [hflight]
  | _ :: _ :: _ => simp [hflights] at hsingle

/-- Results are given in the generation of their call, to a session that is not disposed of. -/
theorem runSearch_results {entry : PendingSearch Filters}
    {result : Except (Option KwiryBackendError) (SearchExecution Response)}
    {execution : SearchExecution Response} (h : runSearch entry s result = .results execution) :
    s.disposed = false ∧ entry.generation = s.generation := by
  cases result with
  | ok found =>
    rw [runSearch] at h
    split at h
    · cases h
    · next hfresh =>
      simp only [not_or, Bool.not_eq_true, not_not] at hfresh
      exact ⟨hfresh.1, hfresh.2.1⟩
  | error error =>
    rw [runSearch] at h
    split at h <;> cases h

lemma Invariant.complete (h : Invariant s) (hflight : flight ∈ s.flights)
    (hopen : flight.settled = false)
    (result : Except (Option KwiryBackendError) (SearchExecution Response)) :
    Invariant (s.complete flight result) := by
  have hflights := h.toSteady.flights_eq hflight
  have hsettled : settleFlight flight.entry.generation s.flights =
      [{ flight with settled := true }] := by
    rw [hflights]
    simp [settleFlight]
  have hledger : Ledger (flight.entry.generation :: s.pending.toList.map (·.generation)) s.log := by
    refine h.ledger.perm ?_
    rw [waiting, hflights]
    simp only [hopen, Bool.not_false, filter_cons_of_pos, filter_nil, map_cons, map_nil]
    exact perm_append_singleton _ _
  rw [SearchSession.complete, hsettled]
  refine ⟨⟨⟨h.timers.armed, h.timers.timer, h.timers.pending⟩, h.pendingNewest, h.disposedIdle,
    ?_, by simp [record], ?_, ?_, ?_, ?_, ?_⟩, fun _ _ _ => by simp [record]⟩
  · simp only [record, ne_eq, cons_ne_nil, not_false_eq_true, iff_true]
    exact h.active.mpr (by simp [hflights])
  · intro other hother
    rw [record, mem_singleton] at hother
    rw [hother]
    exact h.older flight hflight
  · have hwaiting : s.pending.toList.map (·.generation) =
        waiting ({ s with flights := [{ flight with settled := true }] }.record
          (.resolved flight.entry.generation (runSearch flight.entry s result))) := by
      simp [waiting, record]
    exact hwaiting ▸ hledger.resolve _
  · exact fun g hg => h.bounded g (by simpa [record] using hg)
  · intro hdisposed hcalled
    exact (h.current hdisposed (by simpa [record] using hcalled)).cons (by simp [Record.Supersedes])
  · apply h.newest.cons
    intro generation execution hr
    injection hr with hgeneration houtcome
    obtain ⟨hdisposed, hsame⟩ := runSearch_results houtcome
    -- the call is the newest, and it has been made
    have hcalled := hledger.called flight.entry.generation mem_cons_self
    rw [← hgeneration, hsame]
    exact h.current hdisposed (hsame ▸ hcalled)

lemma Invariant.finish (h : Invariant s) (hflight : flight ∈ s.flights)
    (hsettled : flight.settled = true) : Invariant (s.finish flight.entry.generation) := by
  have hflights := h.toSteady.flights_eq hflight
  rw [SearchSession.finish]
  have hnone : s.flights.filter (fun other => other.entry.generation ≠ flight.entry.generation) =
      [] := by
    rw [hflights]
    simp
  rw [hnone]
  apply Steady.tryDispatch
  refine ⟨⟨h.timers.armed, h.timers.timer, h.timers.pending⟩, h.pendingNewest, h.disposedIdle,
    by simp, by simp, by simp, ?_, h.bounded, h.current, h.newest⟩
  have hwaiting : s.waiting = waiting { s with flights := [], activeInFlight := false } := by
    rw [waiting, waiting, hflights]
    simp [hsettled]
  exact hwaiting ▸ h.ledger

lemma Invariant.step (h : Invariant s) {event : Event Filters Response}
    (hstep : s.step supportedModes event = some t) : Invariant t := by
  cases event with
  | search query options =>
    cases hstep
    exact h.search supportedModes query options
  | setMode mode =>
    cases hstep
    exact h.setMode supportedModes mode
  | dispose =>
    cases hstep
    exact h.dispose
  | fire handle =>
    simp only [SearchSession.step] at hstep
    split at hstep
    · next harmed =>
      cases hstep
      exact h.fire harmed
    · cases hstep
  | complete generation result =>
    obtain ⟨flight, hfind, rfl⟩ := Option.map_eq_some_iff.mp hstep
    have hopen := find?_some hfind
    simp only [Bool.decide_and, Bool.and_eq_true, decide_eq_true_eq, Bool.not_eq_true'] at hopen
    exact h.complete (mem_of_find?_eq_some hfind) hopen.2 result
  | finish generation =>
    simp only [SearchSession.step] at hstep
    split at hstep
    · next hflight =>
      obtain ⟨flight, hmem, rfl, hsettled⟩ := hflight
      cases hstep
      exact h.finish hmem hsettled
    · cases hstep
  | drift identity =>
    cases hstep
    exact ⟨⟨⟨h.timers.armed, h.timers.timer, h.timers.pending⟩, h.pendingNewest, h.disposedIdle,
      h.active, h.single, h.older, h.ledger, h.bounded, h.current, h.newest⟩, h.waits⟩

lemma create_invariant {initialMode : SearchMode} {identity : BackendIdentity}
    (h : create supportedModes initialMode identity = .ok s) : Invariant s := by
  cases supportedModes with
  | nil => cases h
  | cons first rest =>
    cases h
    refine ⟨⟨⟨rfl, nofun, nofun⟩, nofun, fun _ => rfl, by simp, by simp, by simp,
      ⟨nodup_nil, by simp [waiting], by simp [waiting], by simp, fun _ _ => rfl⟩, by simp,
      by simp, ?_⟩, nofun⟩
    intro after generation execution before hlog
    exact absurd hlog (by simp)

lemma Invariant.serves (h : Invariant s) : Serves Record.Supersedes s where
  single := h.single
  once generation := by
    by_cases hcalled : .searchCall generation ∈ s.log
    · by_cases hwaiting : generation ∈ s.waiting
      · rw [h.ledger.unresolved generation hwaiting]
        exact Nat.zero_le 1
      · rw [h.ledger.resolved generation hwaiting hcalled]
    · rw [h.ledger.uncalled generation hcalled]
      exact Nat.zero_le 1
  newest := h.newest
  answered harmed hflights generation hcalled := by
    have hnone : s.pending = none := by
      cases hpending : s.pending with
      | none => rfl
      | some entry =>
        cases hdue : entry.dueReached with
        | true => exact absurd hflights (h.waits entry hpending hdue)
        | false =>
          -- its timer would be armed
          have htimer := h.timers.armed
          rw [h.timers.pending entry hpending hdue, harmed] at htimer
          cases htimer
    have hwaiting : s.waiting = [] := by
      rw [waiting_of_none hnone, hflights]
      rfl
    rw [h.ledger.resolved generation (by simp [hwaiting]) hcalled]
    exact Nat.one_pos

end SearchSession

/-! ## §7 Every run -/

/-- After any calls, timers and completions, a session has served its callers. -/
theorem serves_latest {supportedModes : List SearchMode} {initialMode : SearchMode}
    {identity : BackendIdentity} {start s : SearchSession Filters Response}
    {events : List (Event Filters Response)}
    (hstart : SearchSession.create supportedModes initialMode identity = .ok start)
    (hrun : runEvents (SearchSession.step supportedModes) start events = some s) :
    Serves Record.Supersedes s := by
  have hinvariant : SearchSession.Invariant s :=
    runEvents_kept (fun _ _ _ ht hstep => ht.step hstep) (SearchSession.create_invariant hstart)
      hrun
  exact hinvariant.serves

/-- A session before its first call. -/
def firstSession : SearchSession Unit Unit where
  generation := 0
  disposed := false
  mode := .lexical
  pending := none
  timerHandle := none
  activeInFlight := false
  identity := ⟨.inPlugin, "a".toList⟩
  armed := []
  flights := []
  log := []

/-- A search, its pause, a mode that is refused, and the answer of the backend. -/
def refusedMode : List (Event Unit Unit) :=
  [.search "kwiry".toList ⟨20, none⟩, .fire 1, .setMode .semantic,
    .complete 1 (.ok ⟨⟨.inPlugin, "a".toList⟩, .lexical, .lexical, ()⟩), .finish 1]

theorem serves_latest_refusedMode :
    ∃ s, runEvents (SearchSession.step [.lexical]) firstSession refusedMode = some s ∧
      Serves Record.Supersedes s :=
  ⟨_, rfl, serves_latest
    (show SearchSession.create [.lexical] .lexical ⟨.inPlugin, "a".toList⟩ = .ok firstSession
      from rfl)
    (show runEvents (SearchSession.step [.lexical]) firstSession refusedMode = some _ from rfl)⟩

/-- The mode that is refused does not make the search stale. -/
theorem refusedMode_results :
    ¬ ∀ (supportedModes : List SearchMode) (initialMode : SearchMode) (identity : BackendIdentity)
        (start s : SearchSession Unit Unit) (events : List (Event Unit Unit)),
      SearchSession.create supportedModes initialMode identity = .ok start →
        runEvents (SearchSession.step supportedModes) start events = some s →
          Serves Record.IsCall s := by
  intro h
  have hserves := h [.lexical] .lexical ⟨.inPlugin, "a".toList⟩ firstSession _ refusedMode rfl rfl
  obtain ⟨after, before, hlog, hafter⟩ := hserves.newest [] 1 _ _ rfl
  cases after with
  | nil => injection hlog with hhead; cases hhead
  | cons r after =>
    injection hlog with hhead
    refine hafter r mem_cons_self ?_
    rw [← hhead]
    trivial

end Kwiry.Plugin.Sessions
