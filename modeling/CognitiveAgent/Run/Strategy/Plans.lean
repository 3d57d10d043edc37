import CognitiveAgent.Run.Activation

/-!
Modules that follow plans. The steps of a plan run one by one. A plan is dropped when it is used
up or when a step did nothing; then the module is left or asks for a new plan.
-/

set_option autoImplicit false

namespace CognitiveAgent

namespace PlanState

/-- Takes in the result of a step. A step that did nothing ends its plan. -/
def absorb (state : PlanState) (a : Activation) : Option RunResult → Activation × PlanState
  | none => (a, { state with awaitingStep := false })
  | some result =>
    if state.awaitingStep then
      (a.absorb result,
        { state with
          awaitingStep := false
          plan := if result.performedAction then state.plan else none })
    else (a, state)

def take? (state : PlanState) : Option (PlanStep × PlanState) :=
  match state.plan with
  | some (step :: rest) => some (step, { state with plan := some rest, awaitingStep := true })
  | some [] | none => none

end PlanState

namespace Setting

variable {σ ω : Type} (S : Setting σ ω)

def runStep (a : Activation) (step : PlanStep) : Exec σ ω Outcome := do
  S.emit .plan a.module.display step.action.source "executing step %s"
    [(step.action.apply step.substitution).display]
  return .yield (a.comboFrames [step.action] step.substitution none)

def replan (a : Activation) (state : PlanState) :
    Exec σ ω (Activation × PlanState × Outcome) := do
  match ← S.ask (.plan a.module a.substitution) with
  | .error fault => return (a, state, .failed ⟨a.module.display, .planner fault⟩)
  | .ok plan =>
    S.emit .plan a.module.display a.module.source "new plan with %s steps"
      [toString (plan.getD []).length]
    let state := { state with plan }
    match state.take? with
    | some (step, state) => return (a, state, ← S.runStep a step)
    | none => return (a, state, .yield [])

def resumePlans (a : Activation) (state : PlanState) (previous : Option RunResult) :
    Exec σ ω (Activation × PlanState × Outcome) := do
  let (a, state) := state.absorb a previous
  if ← S.mustStop a then
    let (a, outcome) ← S.finish a
    return (a, state, outcome)
  else
    match state.take? with
    | some (step, state) => return (a, state, ← S.runStep a step)
    | none =>
      let state := { state with plan := none }
      if state.plannedBefore then
        if ← S.exitHolds a then
          let (a, outcome) ← S.finish a
          return (a, state, outcome)
        else
          let a ← S.nextPass a
          S.replan a state
      else S.replan a { state with plannedBefore := true }

end Setting

end CognitiveAgent
