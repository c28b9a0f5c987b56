import Kwiry.Model
import Kwiry.Plugin.Backend

/-!
# Statuses of the In-Plugin Backend

What the index controller reports, what the backend makes of it, and the errors of a search.
-/

namespace Kwiry.Plugin.Lexical

open Foundations

/-! ## §1 The controller's statuses -/

inductive IndexControllerStage where
  | starting | snapshot | replay | ready | rebuild | degraded | failed | disposed
deriving DecidableEq

inductive IndexControllerActivity where
  | inventory | read | prepare | apply

inductive IndexControllerReplaySubphase where
  | planning | verifying | applying

inductive IndexControllerStallCategory where
  | sourceReadTimeout | sourceReadCapacity | workerTimeout

inductive IndexControllerIssue where
  | vaultReadFailed | indexBuildFailed | indexUpdateFailed | indexLimitExceeded
  | sourcesQuarantined | sourcesUnreadable | indexReconciling | cachePartiallyReused
  | cacheAbsent | cacheUnavailable | cacheCorrupt | cacheIncompatible | cacheRestoreUnavailable
  | cacheDiscardFailed | cacheSaveFailed
  | checkpointCorrupt | checkpointIncompatible | checkpointUnavailable
  | checkpointDiscardFailed | checkpointSaveFailed

structure IndexProgress where
  activity : IndexControllerActivity
  completed : ℕ
  total : Option ℕ
  inFlight : ℕ
  subphase : Option IndexControllerReplaySubphase
  stallCategory : Option IndexControllerStallCategory

structure PartialReuseReport where
  (reindexing removed : List SourceFormat)

structure IndexControllerStatus where
  stage : IndexControllerStage
  searchable : Bool
  generation : Option Text
  (documents chunks zeroChunkSources : ℕ)
  sourceFormatCounts : List (SourceFormat × ℕ)
  (quarantinedSources unreadableSources : ℕ)
  unreadableSourceCauses : Option (List (String × ℕ))
  quarantineValidatorFields : List String
  (dirty rebuilding : Bool)
  partialReuse : Option PartialReuseReport
  progress : Option IndexProgress
  issue : Option IndexControllerIssue

/-! ## §2 The backend's statuses -/

inductive BackendPhase where
  | starting | building | ready | degraded | unavailable | disposed
deriving DecidableEq

inductive BackendLiveness where
  | unknown | alive | terminated

structure BackendIssue where
  (code safeMessage : String)
  recoverable : Bool

structure BackendStatus where
  identity : BackendIdentity
  phase : BackendPhase
  liveness : BackendLiveness
  searchable : Bool
  generation : Option Text
  (documents chunks : ℕ)
  zeroChunkSources : Option ℕ
  sourceFormatCounts : Option (List (SourceFormat × ℕ))
  enabledSourceFormats : Option (List SourceFormat)
  (quarantinedSources unreadableSources : Option ℕ)
  unreadableSourceCauses : Option (List (String × ℕ))
  quarantineValidatorFields : Option (List String)
  (dirty rebuilding : Bool)
  progress : Option (IndexControllerStage × IndexProgress)
  issue : Option BackendIssue

def indexBuildingIssue : BackendIssue :=
  ⟨"index_building", "In-plugin lexical index is still building.", true⟩

def workerRecoveringIssue : BackendIssue :=
  ⟨"worker_recovering", "In-plugin search Worker is recovering.", true⟩

def baseStatus (identity : BackendIdentity) : BackendStatus where
  identity := identity
  phase := .starting
  liveness := .unknown
  searchable := false
  generation := none
  documents := 0
  chunks := 0
  zeroChunkSources := none
  sourceFormatCounts := none
  enabledSourceFormats := none
  quarantinedSources := none
  unreadableSources := none
  unreadableSourceCauses := none
  quarantineValidatorFields := none
  dirty := true
  rebuilding := false
  progress := none
  issue := some indexBuildingIssue

def recoveringStatus (identity : BackendIdentity) : BackendStatus :=
  { baseStatus identity with
    phase := .building, liveness := .alive, issue := some workerRecoveringIssue }

def unavailableStatus (identity : BackendIdentity) (code safeMessage : String) : BackendStatus :=
  { baseStatus identity with
    phase := .unavailable, liveness := .terminated, issue := some ⟨code, safeMessage, true⟩ }

def disposedStatus (identity : BackendIdentity) : BackendStatus :=
  { baseStatus identity with
    phase := .disposed
    liveness := .terminated
    issue := some ⟨"disposed", "The in-plugin backend is disposed.", false⟩ }

/-! ## §3 From one to the other -/

def sourceFormatLabel : SourceFormat → String
  | .markdown => "Markdown"
  | .text => "plain-text"
  | .base => "Base"
  | .canvas => "Canvas"
  | .docx => "DOCX"
  | .pdf => "PDF"
  | .excalidraw => "Excalidraw"
  | .excel => "Excel"
  | .html => "HTML"

def formatList (formats : List SourceFormat) : String :=
  let labels := formats.map sourceFormatLabel
  let listed :=
    if labels.length = 1 then labels.headD ""
    else ", ".intercalate labels.dropLast ++ " and " ++ labels.getLastD ""
  listed ++ " sources"

def partialReuseMessage (report : Option PartialReuseReport) : String :=
  let reindexing := (report.map (·.reindexing)).getD []
  let removed := (report.map (·.removed)).getD []
  let clauses :=
    (if reindexing = [] then [] else ["reindexing " ++ formatList reindexing]) ++
      (if removed = [] then [] else ["removed " ++ formatList removed])
  if clauses = [] then "Cached index searchable; reconciling vault changes…"
  else "Cached index searchable; " ++ " and ".intercalate clauses ++ "…"

def omissionMessage (quarantined unreadable : ℕ) : String :=
  let total := quarantined + unreadable
  let note := if total = 1 then "note may be" else "notes may be"
  let details := ", ".intercalate
    ((if quarantined = 0 then [] else [toString quarantined ++ " quarantined"]) ++
      (if unreadable = 0 then [] else [toString unreadable ++ " unreadable"]))
  toString total ++ " " ++ note ++ " missing from search (" ++ details ++ ")."

def IndexControllerIssue.code : IndexControllerIssue → String
  | .vaultReadFailed => "vault_read_failed"
  | .indexBuildFailed => "index_build_failed"
  | .indexUpdateFailed => "index_update_failed"
  | .indexLimitExceeded => "index_limit_exceeded"
  | .sourcesQuarantined => "sources_quarantined"
  | .sourcesUnreadable => "sources_unreadable"
  | .indexReconciling => "index_reconciling"
  | .cachePartiallyReused => "cache_partially_reused"
  | .cacheAbsent => "cache_absent"
  | .cacheUnavailable => "cache_unavailable"
  | .cacheCorrupt => "cache_corrupt"
  | .cacheIncompatible => "cache_incompatible"
  | .cacheRestoreUnavailable => "cache_restore_unavailable"
  | .cacheDiscardFailed => "cache_discard_failed"
  | .cacheSaveFailed => "cache_save_failed"
  | .checkpointCorrupt => "checkpoint_corrupt"
  | .checkpointIncompatible => "checkpoint_incompatible"
  | .checkpointUnavailable => "checkpoint_unavailable"
  | .checkpointDiscardFailed => "checkpoint_discard_failed"
  | .checkpointSaveFailed => "checkpoint_save_failed"

/-- The message of an issue, by what the status says beside it. -/
def controllerMessage (issue : IndexControllerIssue) (status : IndexControllerStatus) : String :=
  let current := status.searchable && !status.dirty
  match issue with
  | .vaultReadFailed => "The active vault could not be read completely."
  | .indexBuildFailed => "The in-plugin lexical index could not be built."
  | .indexUpdateFailed => "The in-plugin lexical index could not be updated."
  | .indexLimitExceeded => "The in-plugin lexical index reached its capacity limit."
  | .sourcesQuarantined | .sourcesUnreadable =>
    omissionMessage status.quarantinedSources status.unreadableSources
  | .indexReconciling => "Cached index searchable; reconciling vault changes…"
  | .cachePartiallyReused => partialReuseMessage status.partialReuse
  | .cacheAbsent =>
    if !status.searchable then "No cached index; building a fresh index…"
    else if status.dirty then "Index is searchable but stale; cached durability is pending."
    else "Index is current; cached durability is pending."
  | .cacheUnavailable =>
    if !status.searchable then "Cache unavailable; building a fresh index…"
    else if status.dirty then "Index is searchable but stale; cache durability is unavailable."
    else "Index is current, but cache durability is unavailable."
  | .cacheCorrupt =>
    if !status.searchable then "Cached index rejected and discarded; building fresh…"
    else if status.dirty then
      "Fresh index is searchable but stale; cache replacement is pending."
    else "Fresh index is current; replacing the discarded cache…"
  | .cacheIncompatible =>
    if current then "Fresh index is current; replacing the incompatible cache…"
    else "Cached index is incompatible; building fresh…"
  | .cacheRestoreUnavailable =>
    if current then "Fresh index is current; replacing the unrestorable cache…"
    else "Cached index could not be restored; building fresh…"
  | .cacheDiscardFailed =>
    if current then "Fresh index is current; rejected cache could not be discarded."
    else "Cached index was rejected but could not be discarded; building fresh…"
  | .cacheSaveFailed => "Search ready; cache save failed"
  | .checkpointCorrupt => "Initial-build checkpoint was corrupt; building fresh…"
  | .checkpointIncompatible => "Initial-build checkpoint is incompatible; building fresh…"
  | .checkpointUnavailable => "Initial-build checkpoint could not be resumed; building fresh…"
  | .checkpointDiscardFailed =>
    if status.searchable then "Search ready; stale initial-build checkpoint cleanup failed."
    else "Initial-build checkpoint was rejected but could not be discarded; building fresh…"
  | .checkpointSaveFailed => "Initial build continues, but checkpoint save failed."

def controllerIssue (issue : IndexControllerIssue) (status : IndexControllerStatus) :
    BackendIssue :=
  ⟨issue.code, controllerMessage issue status, true⟩

def isCurrentCachePersistencePending (code : String) : Bool :=
  code = "cache_absent" ∨ code = "cache_corrupt" ∨ code = "cache_incompatible" ∨
    code = "cache_restore_unavailable"

/-- `status.stage === "ready" && !status.dirty` -/
def IndexControllerStatus.settled (status : IndexControllerStatus) : Bool :=
  status.stage = .ready && !status.dirty

def isMeaningfulControllerProgress : Option IndexProgress → Bool
  | none => false
  | some progress =>
    match progress.activity with
    | .inventory => progress.total.isSome
    | .read => 0 < progress.inFlight
    | _ => true

def mapIssue (status : IndexControllerStatus) (recovering : Bool) : Option BackendIssue :=
  if recovering && !status.settled then some workerRecoveringIssue
  else match status.issue with
    | some issue => some (controllerIssue issue status)
    | none => if status.searchable then none else some indexBuildingIssue

def mapPhase (status : IndexControllerStatus) (issue : Option BackendIssue) : BackendPhase :=
  let pending := issue.all fun issue => isCurrentCachePersistencePending issue.code
  if status.settled && pending then .ready
  else if status.settled && issue.isSome then .degraded
  else match status.stage with
    | .degraded => .degraded
    | .failed => .unavailable
    | .starting => .starting
    | _ => .building

def mapProgress (status : IndexControllerStatus) : Option (IndexControllerStage × IndexProgress) :=
  match status.stage with
  | .snapshot | .replay | .rebuild | .degraded | .failed =>
    status.progress.map fun progress => (status.stage, progress)
  | _ => none

def mapControllerStatus (identity : BackendIdentity) (status : IndexControllerStatus)
    (recovering : Bool) (enabledSourceFormats : Option (List SourceFormat)) : BackendStatus :=
  if status.stage = .disposed then disposedStatus identity
  else
    { identity := identity
      phase := mapPhase status (mapIssue status recovering)
      liveness := .alive
      searchable := status.searchable
      generation := status.generation
      documents := status.documents
      chunks := status.chunks
      zeroChunkSources := some status.zeroChunkSources
      sourceFormatCounts := some status.sourceFormatCounts
      enabledSourceFormats := enabledSourceFormats
      quarantinedSources := some status.quarantinedSources
      unreadableSources := some status.unreadableSources
      unreadableSourceCauses := status.unreadableSourceCauses.filter (· ≠ [])
      quarantineValidatorFields := some status.quarantineValidatorFields
      dirty := status.dirty
      rebuilding := status.rebuilding
      progress := mapProgress status
      issue := mapIssue status recovering }

/-! ## §4 Errors of a search -/

/-- What a call of the Worker fails with: an error of the backend itself, one of the Worker, or
anything else that was thrown. -/
inductive WorkerFailure where
  | backend (error : KwiryBackendError)
  | rpc (code stage : String) (retryable : Bool) (failureCause : Option FailureCause)
  | aggregate (errors : List WorkerFailure)
  | other

/-- After such a failure nobody knows what the Worker has done. -/
def isUncertainWorkerFailure : WorkerFailure → Bool
  | .aggregate errors => anyUncertain errors
  | .rpc code stage _ _ =>
    code = "timeout" ∨ code = "worker_crashed" ∨ code = "protocol_mismatch" ∨
      (code = "invalid_request" ∧ stage = "protocol")
  | .backend _ | .other => false
where
  anyUncertain : List WorkerFailure → Bool
    | [] => false
    | error :: rest => isUncertainWorkerFailure error || anyUncertain rest

def backendError (code : String) (stage : BackendStage) (retryable : Bool) (safeMessage : String)
    (failureCause : Option FailureCause) : KwiryBackendError :=
  ⟨code, .inPlugin, stage, retryable, safeMessage, failureCause⟩

def recoveringBackendError : KwiryBackendError :=
  backendError "worker_recovering" .lifecycle true "In-plugin search Worker is recovering." none

def disposedBackendError : KwiryBackendError :=
  backendError "disposed" .lifecycle false "The in-plugin backend is disposed." none

def workerFailedError (retryable : Bool) : KwiryBackendError :=
  backendError "worker_failed" .lifecycle retryable "In-plugin search Worker failed." none

def workerBackendError : WorkerFailure → KwiryBackendError
  | .backend error => error
  | .rpc code _ retryable failureCause =>
    if code = "explicit_query_unsupported" then
      backendError code .query false
        "This explicit query is unavailable in the in-plugin backend." none
    else if code = "invalid_field_control" then
      backendError code .query false "The query contains an invalid field control." none
    else if code = "invalid_query" then
      backendError code .query false "The query is invalid or exceeds the supported limits." none
    else if code = "invalid_query_plan" then
      backendError code .protocol false "The in-plugin backend produced an invalid query plan." none
    else if code = "query_execution_failed" then
      backendError code .query retryable "In-plugin lexical search could not complete." failureCause
    else if code = "index_building" then
      backendError code .index retryable "In-plugin lexical index is still building." none
    else workerFailedError retryable
  | .aggregate _ | .other => workerFailedError true

end Kwiry.Plugin.Lexical
