import CognitiveAgent.Run.Activation

/-!
Modules that try their rules in order, pass by pass. A pass ends after its last rule, or, under an
order that does not try all rules, after the first rule that acted. At the end of a pass the
module is left or goes on with the next one.
-/

set_option autoImplicit false

namespace CognitiveAgent

namespace PassState

/-- Takes in what the module has waited for, and tells whether it closes the pass. -/
def absorb (state : PassState) (a : Activation) : Option RunResult → Activation × Bool
  | none => (a, false)
  | some result =>
    match state.awaiting with
    | .nothing => (a, false)
    | .rule =>
      (a.absorb result, state.queue.isEmpty || (!a.order.triesAll && result.performedAction))
    | .eventPass => (a.absorbEventPass result, false)

end PassState

namespace Setting

variable {σ ω : Type} (S : Setting σ ω)

/-- Ends a pass. Without an outcome, the module is free to open the next one. -/
def endPass (a : Activation) (state : PassState) :
    Exec σ ω (Activation × PassState × Option Outcome) := do
  if ← S.exitHolds a then
    let (a, outcome) ← S.finish a
    return (a, state, some outcome)
  else
    let a ← S.nextPass a
    match S.eventPass a with
    | some frames => return (a, { awaiting := .eventPass }, some (.yield frames))
    | none => return (a, {}, none)

def passOrder (a : Activation) : Exec σ ω (List (Rule × Nat)) :=
  if a.order.shufflesRules then Situation.shuffle a.module.rules.zipIdx
  else pure a.module.rules.zipIdx

def openPass (a : Activation) (state : PassState) : Exec σ ω PassState := do
  if state.isOpen then return state
  else return { state with queue := ← passOrder a, isOpen := true }

/-- Tries the next rule. A module without rules comes to the end of its pass instead. -/
def tryNext (a : Activation) (state : PassState) : Exec σ ω (Activation × PassState × Outcome) := do
  let state ← openPass a state
  match state.queue with
  | (rule, index) :: rest =>
    return (a, { state with queue := rest, awaiting := .rule }, .yield [a.ruleFrame rule index])
  | [] =>
    let (a, state, outcome) ← S.endPass a state
    return (a, state, outcome.getD (.yield []))

def resumePasses (a : Activation) (state : PassState) (previous : Option RunResult) :
    Exec σ ω (Activation × PassState × Outcome) := do
  let (a, closes) := state.absorb a previous
  let state := { state with awaiting := .nothing }
  if ← S.mustStop a then
    let (a, outcome) ← S.finish a
    return (a, state, outcome)
  else if closes then
    match ← S.endPass a state with
    | (a, state, some outcome) => return (a, state, outcome)
    | (a, state, none) => S.tryNext a state
  else S.tryNext a state

end Setting

end CognitiveAgent
