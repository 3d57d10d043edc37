import CognitiveAgent.Run.Frame
import CognitiveAgent.Run.Setting

/-!
The life of a module being executed, as far as it does not depend on the strategy: preparation on
entry, merging of what its children report, the questions whether to stop or to leave, the
separation of passes, and the exit.
-/

set_option autoImplicit false

namespace CognitiveAgent

namespace Activation

def absorb (a : Activation) (child : RunResult) : Activation :=
  { a with
    result := a.result.merge child
    passPerformed := a.passPerformed || child.performedAction }

/-- Merges the result of an event pass, which neither stops the module nor counts as its work. -/
def absorbEventPass (a : Activation) (child : RunResult) : Activation :=
  { a with result := a.result.merge (child.ofCall false) }

def ruleFrame (a : Activation) (rule : Rule) (index : Nat) : Frame :=
  .rule { rule, index, substitution := a.substitution, order := a.order }

/-- A combo that the module runs itself, with a hole in the place of the rule. -/
def comboFrames (a : Activation) (combo : List Action) (substitution : Substitution)
    (focus : Option Term) : List Frame :=
  [.hole, .combo { combo, substitution, focus, order := a.order }]

end Activation

namespace Setting

variable {σ ω : Type} (S : Setting σ ω)

def insertAll : List Term → Exec σ ω (Except MentalFault Unit)
  | [] => return .ok ()
  | belief :: rest => do
    match ← S.ask (.insert belief) with
    | .error fault => return .error fault
    | .ok _ => insertAll rest

def adoptAll : List Term → Exec σ ω (Except MentalFault Unit)
  | [] => return .ok ()
  | goal :: rest => do
    match ← S.ask (.adopt goal) with
    | .error fault => return .error fault
    | .ok _ => adoptAll rest

def enterFocus (m : Module) (goal : Option Term) : Exec σ ω (Except MentalFault Unit) :=
  if m.focus = .none then pure (.ok ()) else S.ask (.enterFocus m.name m.focus goal)

def exitFocus (m : Module) : Exec σ ω (Except MentalFault Unit) :=
  if m.focus = .none then pure (.ok ()) else S.ask (.exitFocus m.name)

/-- Readies the mental state for a module: its focus, its beliefs and its goals. -/
def furnish (a : Activation) : Exec σ ω (Except MentalFault Unit) := do
  match ← S.enterFocus a.module a.focus with
  | .error fault => return .error fault
  | .ok () =>
    match ← S.insertAll (a.module.beliefs.map (·.apply a.substitution)) with
    | .error fault => return .error fault
    | .ok () => S.adoptAll (a.module.goals.map (·.apply a.substitution))

/-- Enters a module. Its order is its own, or else the surrounding module's, or else the default;
it is fixed even if the entry then fails. -/
def prepare (a : Activation) : Exec σ ω (Activation × Option Failure) := do
  let a := { a with order := (a.module.order <|> a.inherited).getD S.defaultOrder }
  match ← S.furnish a with
  | .error fault => return (a, some ⟨a.module.display, .mental fault⟩)
  | .ok () =>
    Situation.enter a.module.name
    S.emit .moduleEntry a.module.display a.module.source "entered %s with %s"
      [a.module.display, a.substitution.display]
    return ({ a with prepared := true }, none)

/-- Whether the module is to be left at once: its work asked for it, or the agent is to stop. -/
def mustStop (a : Activation) : Exec σ ω Bool :=
  if a.result.isRunning then S.ask .stopSignal else pure true

def exitHolds (a : Activation) : Exec σ ω Bool := do
  match a.module.exit with
  | .noGoals => return !(← S.ask .hasGoals)
  | .noAction => return !a.passPerformed
  | .always => return true
  | .never => return false

def nextPass (a : Activation) : Exec σ ω Activation := do
  if a.isMain then
    S.emit .cycle a.module.display none "new cycle of %s" [a.module.name]
  return { a with passPerformed := false }

/-- The event module, run between the passes of the main module. Holes stand for the rule, the
combo and the action that did not call it. -/
def eventPass (a : Activation) : Option (List Frame) :=
  if a.isMain then
    S.program.event.map fun event =>
      [.hole, .hole, .hole, .module (.start event .empty (some a.order) none)]
  else none

/-- Leaves a module. A named one reports that it has been stopped. -/
def finish (a : Activation) : Exec σ ω (Activation × Outcome) := do
  let stopped ← S.ask .stopSignal
  let a := if stopped then { a with result := a.result.merge (.stopped .hardStop) } else a
  match ← S.exitFocus a.module with
  | .error fault => return (a, .failed ⟨a.module.display, .mental fault⟩)
  | .ok () =>
    Situation.leave a.module.name
    let a :=
      if a.module.anonymous then a else { a with result := a.result.merge (.stopped .softStop) }
    S.emit .moduleExit a.module.display a.module.source "exited %s" [a.module.display]
    return (a, .done a.result)

end Setting

end CognitiveAgent
