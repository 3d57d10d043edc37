import CognitiveAgent.Json.Decoding

/-!
Results of frames. Results flow upward only: whoever started a piece of work merges its result
into its own.
-/

set_option autoImplicit false

namespace CognitiveAgent

inductive RunStatus where
  | running
  | softStop
  | hardStop
deriving DecidableEq, Inhabited

namespace RunStatus

def all : List RunStatus := [.running, .softStop, .hardStop]

def name : RunStatus → String
  | .running => "Running"
  | .softStop => "SoftStop"
  | .hardStop => "HardStop"

def max : RunStatus → RunStatus → RunStatus
  | .hardStop, _ | _, .hardStop => .hardStop
  | .softStop, _ | _, .softStop => .softStop
  | .running, .running => .running

def toJson (s : RunStatus) : Json := .string s.name

def ofJson? : Json → Option RunStatus := Json.oneOf? all name .strict

end RunStatus

structure RunResult where
  status : RunStatus
  performedAction : Bool
  performedRealAction : Bool
deriving DecidableEq

namespace RunResult

def start : RunResult := ⟨.running, false, false⟩

instance : Inhabited RunResult := ⟨start⟩

def action : RunResult := ⟨.running, true, false⟩

def realAction : RunResult := ⟨.running, true, true⟩

def stopped (status : RunStatus) : RunResult := ⟨status, false, false⟩

def merge (r other : RunResult) : RunResult :=
  ⟨r.status.max other.status, r.performedAction || other.performedAction,
    r.performedRealAction || other.performedRealAction⟩

/-- What a call reports of the called module. A request to stop passes only out of an anonymous
one. -/
def ofCall (callee : RunResult) (anonymous : Bool) : RunResult :=
  { callee with status := if anonymous then callee.status else .running }

def isRunning (r : RunResult) : Bool := r.status == .running

/-- The work asked to stop or did nothing. -/
def isFailure (r : RunResult) : Bool := !r.isRunning || !r.performedAction

def display (r : RunResult) : String :=
  r.status.name ++ " (action: " ++ toString r.performedAction ++ ", real action: " ++
    toString r.performedRealAction ++ ")"

def toJson (r : RunResult) : Json :=
  .object [("status", r.status.toJson), ("performed_action", .bool r.performedAction),
    ("performed_real_action", .bool r.performedRealAction)]

def ofJson? (value : Json) : Option RunResult := do
  match ← value.fields? ["status", "performed_action", "performed_real_action"] with
  | [status, action, real] =>
    return { status := ← Json.required? RunStatus.ofJson? status,
             performedAction := ← Json.required? Json.bool? action,
             performedRealAction := ← Json.required? Json.bool? real }
  | _ => none

end RunResult

end CognitiveAgent
