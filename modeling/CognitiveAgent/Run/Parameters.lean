import CognitiveAgent.Program.Module
import CognitiveAgent.Run.Failure
import CognitiveAgent.Term.Unification

/-!
Passing parameters to a called module. The formal parameters are arbitrary terms; each is matched
with the value of the actual one, and what results binds the module's own variables only.
-/

set_option autoImplicit false

namespace CognitiveAgent.Module

/-- Matches formal parameters from left to right with the values of the actual ones. -/
def matchParameters (m : Module) (caller : Substitution) :
    List (Term × Term) → Substitution → Except Cause Substitution
  | [], bound => .ok bound
  | (formal, actual) :: rest, bound =>
    let value := actual.apply caller
    if value.isClosed then
      match ((formal.apply bound).mgu value).bind bound.combine with
      | none => .error (.parameterMismatch m.name formal.display value.display)
      | some extended => matchParameters m caller rest extended
    else .error (.unboundVariables ("call of module " ++ m.display) value.freeVars)

def bindParameters (m : Module) (actuals : List Term) (caller : Substitution) :
    Except Cause Substitution :=
  if m.parameters.length = actuals.length then
    match m.matchParameters caller (m.parameters.zip actuals) .empty with
    | .error cause => .error cause
    | .ok bound => .ok (bound.retain m.parameterVars)
  else .error (.arity m.name m.parameters.length actuals.length)

/-- The bindings that a called module starts with. An anonymous one goes on with its caller's. -/
def bindCall (m : Module) (actuals : List Term) (caller : Substitution) :
    Except Cause Substitution :=
  if m.anonymous then .ok caller else m.bindParameters actuals caller

end CognitiveAgent.Module
