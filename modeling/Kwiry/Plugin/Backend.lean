import Kwiry.Foundations.Bytes

/-!
# What a Search Backend Is to the Plugin

The data that backends, the session and the manager exchange.
-/

namespace Kwiry.Plugin

open Foundations

inductive SearchMode where
  | lexical | semantic | hybrid
deriving DecidableEq

inductive BackendProfile where
  | daemon | inPlugin

/-- As the profile stands in an instance id. -/
def BackendProfile.name : BackendProfile → String
  | .daemon => "daemon"
  | .inPlugin => "in_plugin"

structure BackendIdentity where
  profile : BackendProfile
  instanceId : Text

inductive BackendStage where
  | configuration | transport | protocol | index | query | lifecycle

inductive FailureCause where
  | sqlite | planRejected | boundsExceeded | internal

structure KwiryBackendError where
  code : String
  profile : BackendProfile
  stage : BackendStage
  retryable : Bool
  safeMessage : String
  failureCause : Option FailureCause

structure SearchRequest (Filters : Type) where
  q : Text
  mode : SearchMode
  limit : ℕ
  filters : Option Filters

/-- What a backend returns, with the rest of its response. -/
structure SearchExecution (Response : Type) where
  backend : BackendIdentity
  (requestedMode effectiveMode : SearchMode)
  response : Response

end Kwiry.Plugin
