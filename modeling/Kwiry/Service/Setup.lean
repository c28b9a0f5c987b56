import Kwiry.Foundations.Sorting
import Kwiry.Model

/-!
# Setup

`setup/planner.rs`, `setup/executor.rs` and `setup_snapshot` of `main.rs`: a plan is made from what
is on disk and from the state of the service, and its actions are carried out until one fails. Setup
may be stopped anywhere and run again. The daemon keeps the configuration and the unit it was
started with, and they tell when a restart is due. Left out are the report, and what of the
configuration neither setup nor that test reads.
-/

namespace Kwiry.Setup

open Foundations List Option

/-! ## §1 Configuration -/

structure Config (Fixed : Type) where
  /-- `version`, `server` and `auth.openclast`, which setup does not change. -/
  fixed : Fixed
  tokenFile : Option Str
  semanticEnabled : Bool
  vaults : List VaultRegistration
  deriving DecidableEq

structure ResolvedSetupInput where
  vault : VaultRegistration
  (semanticEnabled dryRun : Bool)

/-- The paths of an installation, and the unit that its service is installed with. -/
structure Host where
  (configPath dataDir connectionPath defaultTokenFile : Str)
  /-- relative paths are below the configuration -/
  tokenPath : Str → Str
  unit : Text

section Setup

variable {Fixed : Type}

def findId (vaults : List VaultRegistration) (vault : VaultRegistration) :
    Option VaultRegistration :=
  vaults.find? fun other => other.id = vault.id

def findPath (vaults : List VaultRegistration) (vault : VaultRegistration) :
    Option VaultRegistration :=
  vaults.find? fun other => other.path = vault.path

def compareIds (left right : VaultRegistration) : Ordering :=
  compare left.id.chars right.id.chars

/-- Nothing where the id or the path belongs to another registration. -/
def ensureVaultRegistration (vaults : List VaultRegistration) (vault : VaultRegistration) :
    Option (List VaultRegistration) :=
  match findId vaults vault with
  | some existing =>
    if existing.path = vault.path ∧ existing.room = vault.room then some vaults else none
  | none =>
    if (findPath vaults vault).isSome then none else some (sortBy compareIds (vaults ++ [vault]))

/-! ## §2 Plans -/

inductive SetupErrorCode where
  | vaultIdConflict | vaultPathConflict

inductive SetupServiceState where
  | notInstalled | stopped | running | unknown
  deriving DecidableEq

structure SetupDaemonSnapshot where
  (reachable semanticReady : Bool)

structure SetupSnapshot (Fixed : Type) where
  config : Config Fixed
  (bootstrapReady indexReady : Bool)
  service : SetupServiceState
  serviceDefinitionCurrent : Bool
  daemon : SetupDaemonSnapshot

inductive SetupActionKind where
  | ensureVaultRegistration | setSemanticPreference | bootstrapDesktop | buildIndex
  | installService | startService | restartService | checkReadiness

inductive ActionDisposition where
  | apply | alreadySatisfied | skipped
  deriving DecidableEq

structure SetupAction where
  kind : SetupActionKind
  disposition : ActionDisposition
  reason : String

structure ServiceInstallSpec where
  (configPath dataDir : Str)
  semanticEnabled : Bool

structure ReadinessExpectation where
  (connectionPath vaultId : Str)
  semanticEnabled : Bool

structure SetupPlan where
  schemaVersion : ℕ
  input : ResolvedSetupInput
  service : ServiceInstallSpec
  readiness : ReadinessExpectation
  actions : List SetupAction

def setupReportSchemaVersion : ℕ := 1

def conflict (vaults : List VaultRegistration) (vault : VaultRegistration) :
    Option SetupErrorCode :=
  match findId vaults vault with
  | some existing =>
    if existing.path ≠ vault.path ∨ existing.room ≠ vault.room then some .vaultIdConflict else none
  | none => if (findPath vaults vault).isSome then some .vaultPathConflict else none

section Plan

variable (input : ResolvedSetupInput) (snapshot : SetupSnapshot Fixed)

def registrationChanged : Bool := (findId snapshot.config.vaults input.vault).isNone

def semanticChanged : Bool := snapshot.config.semanticEnabled ≠ input.semanticEnabled

def registrationAction : SetupAction :=
  if registrationChanged input snapshot then
    ⟨.ensureVaultRegistration, .apply, "register the selected vault"⟩
  else
    ⟨.ensureVaultRegistration, .alreadySatisfied,
      "the selected vault registration already matches"⟩

def preferenceAction : SetupAction :=
  if semanticChanged input snapshot then
    ⟨.setSemanticPreference, .apply, "persist the selected semantic-search preference"⟩
  else
    ⟨.setSemanticPreference, .alreadySatisfied, "the semantic-search preference already matches"⟩

def bootstrapAction : SetupAction :=
  if snapshot.bootstrapReady then
    ⟨.bootstrapDesktop, .alreadySatisfied, "the local authentication token is already available"⟩
  else
    ⟨.bootstrapDesktop, .apply, "create or validate the local authentication token"⟩

def indexAction : SetupAction :=
  if registrationChanged input snapshot ∧ snapshot.service = .running then
    ⟨.buildIndex, .skipped, "the running daemon will reconcile the registration change"⟩
  else if registrationChanged input snapshot ∨ !snapshot.indexReady then
    ⟨.buildIndex, .apply,
      if registrationChanged input snapshot then "build the index after registration changes"
      else "build the missing index"⟩
  else if semanticChanged input snapshot then
    ⟨.buildIndex, .skipped,
      "semantic vectors are reconciled by the daemon; the lexical index is current"⟩
  else
    ⟨.buildIndex, .alreadySatisfied, "the index is already present"⟩

def installAction : SetupAction :=
  match snapshot.service with
  | .notInstalled => ⟨.installService, .apply, "install the per-user daemon service"⟩
  | .stopped | .running =>
    if snapshot.serviceDefinitionCurrent then
      ⟨.installService, .alreadySatisfied,
        "the per-user daemon service definition already matches"⟩
    else
      ⟨.installService, .apply, "update the per-user daemon service definition"⟩
  | .unknown =>
    ⟨.installService, .apply, "reconcile the per-user daemon service installation"⟩

/-- Whether a service that runs is restarted. -/
def restartNeeded : Bool :=
  registrationChanged input snapshot || semanticChanged input snapshot ||
    !snapshot.serviceDefinitionCurrent || !snapshot.daemon.reachable ||
    (input.semanticEnabled && !snapshot.daemon.semanticReady)

def serviceAction : SetupAction :=
  if snapshot.service = .running then
    if restartNeeded input snapshot then
      ⟨.restartService, .apply, "restart the daemon to apply configuration or recover readiness"⟩
    else
      ⟨.startService, .alreadySatisfied, "the daemon service is already running"⟩
  else
    ⟨.startService, .apply, "start the per-user daemon service"⟩

def readinessAction : SetupAction :=
  ⟨.checkReadiness, .apply, "verify the loopback health and authenticated status endpoints"⟩

def planSetup (host : Host) : Except SetupErrorCode SetupPlan :=
  match conflict snapshot.config.vaults input.vault with
  | some code => .error code
  | none => .ok
    { schemaVersion := setupReportSchemaVersion
      input
      service := ⟨host.configPath, host.dataDir, input.semanticEnabled⟩
      readiness := ⟨host.connectionPath, input.vault.id, input.semanticEnabled⟩
      actions :=
        [registrationAction input snapshot, preferenceAction input snapshot,
          bootstrapAction snapshot, indexAction input snapshot, installAction snapshot,
          serviceAction input snapshot, readinessAction] }

end Plan

/-! ## §3 Runs -/

/-- What a daemon that runs was started with. -/
structure Daemon (Fixed : Type) where
  config : Config Fixed
  /-- its executable, configuration file and data directory -/
  unit : Option Text
  deriving DecidableEq

structure Machine (Fixed : Type) where
  config : Config Fixed
  /-- the token files there are -/
  tokens : List Str
  indexReady : Bool
  /-- the unit of the service, if one is installed -/
  unit : Option Text
  daemon : Option (Daemon Fixed)
  deriving DecidableEq

/-- What an action that fails may leave behind. -/
structure Failure where
  /-- the path of the token is in the configuration already -/
  tokenFile : Bool
  /-- the unit has become another -/
  unit : Option (Option Text)
  /-- the daemon has been stopped, or started -/
  daemon : Option Bool

/-- A run is stopped before an action, or by its failure. -/
structure Stop where
  action : ℕ
  failure : Option Failure

section Runs

variable (host : Host)

/-- `setup_snapshot`; the readiness of the daemon is taken from the configuration on disk. -/
def setupSnapshot (m : Machine Fixed) : SetupSnapshot Fixed where
  config := m.config
  bootstrapReady := m.config.tokenFile.any fun file => host.tokenPath file ∈ m.tokens
  indexReady := m.indexReady
  service :=
    if m.unit.isNone then .notInstalled else if m.daemon.isSome then .running else .stopped
  serviceDefinitionCurrent := m.unit = some host.unit
  daemon := ⟨m.daemon.isSome, m.daemon.isSome && m.config.semanticEnabled⟩

def Config.withTokenFile (config : Config Fixed) : Config Fixed :=
  { config with tokenFile := some (config.tokenFile.getD host.defaultTokenFile) }

variable (input : ResolvedSetupInput)

/-- An action that succeeds. The plan has refused conflicts before, and a daemon that runs is not
started again. -/
def perform (kind : SetupActionKind) (m : Machine Fixed) : Machine Fixed :=
  match kind with
  | .ensureVaultRegistration =>
    { m with config.vaults :=
        (ensureVaultRegistration m.config.vaults input.vault).getD m.config.vaults }
  | .setSemanticPreference => { m with config.semanticEnabled := input.semanticEnabled }
  | .bootstrapDesktop =>
    { m with
      config := m.config.withTokenFile host
      tokens := host.tokenPath (m.config.tokenFile.getD host.defaultTokenFile) :: m.tokens }
  | .buildIndex => { m with indexReady := true }
  | .installService => { m with unit := some host.unit }
  | .startService => { m with daemon := some (m.daemon.getD ⟨m.config, m.unit⟩) }
  | .restartService => { m with daemon := some ⟨m.config, m.unit⟩ }
  | .checkReadiness => m

def fail (failure : Failure) (kind : SetupActionKind) (m : Machine Fixed) : Machine Fixed :=
  match kind with
  | .bootstrapDesktop =>
    if failure.tokenFile then { m with config := m.config.withTokenFile host } else m
  | .installService => { m with unit := failure.unit.getD m.unit }
  | .startService | .restartService =>
    { m with daemon := (failure.daemon.map fun started =>
        if started then some ⟨m.config, m.unit⟩ else none).getD m.daemon }
  | _ => m

def step (m : Machine Fixed) (action : SetupAction) : Machine Fixed :=
  if action.disposition = .apply then perform host input action.kind m else m

/-- A run of setup that is stopped; one without a plan, or a dry one, changes nothing. -/
def stopped (m : Machine Fixed) (stop : Stop) : Machine Fixed :=
  match planSetup input (setupSnapshot host m) host with
  | .error _ => m
  | .ok plan =>
    if input.dryRun then m
    else
      let reached := (plan.actions.take stop.action).foldl (step host input) m
      match stop.failure, plan.actions[stop.action]? with
      | some failure, some action =>
        if action.disposition = .apply then fail host failure action.kind reached else reached
      | _, _ => reached

/-- A run in which every action succeeds. -/
def complete (m : Machine Fixed) : Option (Machine Fixed) :=
  match planSetup input (setupSnapshot host m) host with
  | .error _ => none
  | .ok plan => if input.dryRun then none else some (plan.actions.foldl (step host input) m)

variable {host input} {m : Machine Fixed}

variable (host)

section

variable (h : conflict m.config.vaults input.vault = none)

include h

end

end Runs

end Setup

end Kwiry.Setup
