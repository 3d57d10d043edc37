import CognitiveAgent.Text.Quoted

/-!
Failures. A failure says what was being done and why it could not be, and it ends the run.
-/

set_option autoImplicit false

namespace CognitiveAgent

inductive MentalFault where
  | query (asked reason : String)
  | update (wanted reason : String)
  | noFocus (module : String)
deriving DecidableEq

def MentalFault.message : MentalFault → String
  | .query asked reason => "query " ++ asked ++ " failed: " ++ reason
  | .update wanted reason => "update " ++ wanted ++ " failed: " ++ reason
  | .noFocus module => "no attention set for module " ++ module

inductive EnvironmentFault where
  | rejected (action reason : String)
  | unavailable (reason : String)
deriving DecidableEq

def EnvironmentFault.message : EnvironmentFault → String
  | .rejected action reason => "environment rejected " ++ action ++ ": " ++ reason
  | .unavailable reason => "environment unavailable: " ++ reason

structure PlannerFault where
  module : String
  reason : String
deriving DecidableEq

def PlannerFault.message (f : PlannerFault) : String :=
  "planning for module " ++ f.module ++ " failed: " ++ f.reason

inductive Cause where
  | mental (fault : MentalFault)
  | environment (fault : EnvironmentFault)
  | planner (fault : PlannerFault)
  | unboundVariables (context : String) (names : List String)
  | unknownModule (module : String)
  | arity (module : String) (expected found : Nat)
  | parameterMismatch (module formal actual : String)
  | learner (module : String) (chosen available : Nat)
deriving DecidableEq

def Cause.message : Cause → String
  | .mental fault => fault.message
  | .environment fault => fault.message
  | .planner fault => fault.message
  | .unboundVariables context names =>
    "variables " ++ Text.quoteAll names ++ " are unbound in " ++ context
  | .unknownModule module => "module " ++ module ++ " does not exist"
  | .arity module expected found =>
    "module " ++ module ++ " takes " ++ toString expected ++ " parameters but was called with " ++
      toString found
  | .parameterMismatch module formal actual =>
    "parameter " ++ formal ++ " of module " ++ module ++ " does not match " ++ actual
  | .learner module chosen available =>
    "learner picked candidate " ++ toString chosen ++ " of " ++ toString available ++
      " in module " ++ module

structure Failure where
  subject : String
  cause : Cause
deriving DecidableEq

namespace Failure

def message (f : Failure) : String := f.subject ++ " failed"

def chain (f : Failure) : List String := [f.message, f.cause.message]

end Failure

end CognitiveAgent
