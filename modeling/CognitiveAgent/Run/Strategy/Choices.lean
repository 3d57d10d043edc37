import CognitiveAgent.Number.Decimal
import CognitiveAgent.Run.Activation
import CognitiveAgent.Run.Firing

/-!
Modules that follow a learner. For each decision all rules are evaluated, whatever their order,
and the learner picks one of all the instantiations. After the chosen combo, and in the main
module after the event pass behind it, the learner is told its reward.
-/

set_option autoImplicit false

namespace CognitiveAgent

inductive ChoiceStage where
  -- Nothing has been chosen since the last reward.
  | idle
  | acted
  -- The event pass is done; `chose` tells whether a choice stands before it.
  | passed (chose : Bool)
deriving DecidableEq

namespace ChoiceState

def absorb (state : ChoiceState) (a : Activation) : Option RunResult → Activation × ChoiceStage
  | none => (a, .idle)
  | some result =>
    match state.awaiting with
    | .nothing => (a, .idle)
    | .combo => (a.absorb result, .acted)
    | .eventPass chose => (a.absorbEventPass result, .passed chose)

end ChoiceState

namespace Setting

variable {σ ω : Type} (S : Setting σ ω)

def candidatesOf (incoming : Substitution) :
    List (Rule × Nat) → Exec σ ω (Except Failure (List Candidate))
  | [] => return .ok []
  | (rule, index) :: rest => do
    match ← S.instantiate rule incoming with
    | .error failure => return .error failure
    | .ok options =>
      match ← candidatesOf incoming rest with
      | .error failure => return .error failure
      | .ok others =>
        let candidates := options.map fun option =>
          { rule := index, combo := rule.combo, substitution := option.substitution,
            focus := option.focus : Candidate }
        return .ok (candidates ++ others)

/-- The reward of the environment, or else one for an agent without goals. -/
def rewardNow : Exec σ ω Number := do
  match ← S.ask .reward with
  | some reward => return reward
  | none => if ← S.ask .hasGoals then return .zero else return .one

def reportReward (a : Activation) : Exec σ ω Unit := do
  let reward ← S.rewardNow
  S.ask (.learn a.module.name reward)
  S.emit .learner a.module.display a.module.source "reward %s" [reward.positional]

def ruleSource (m : Module) (index : Nat) : Option Location := m.rules[index]?.bind (·.source)

/-- Has the learner choose, and runs what it has chosen. -/
def decide (a : Activation) (candidates : List Candidate) :
    Exec σ ω (Activation × ChoiceState × Outcome) := do
  let chosen ← S.ask (.choose a.module.name candidates)
  match candidates[chosen]? with
  | none =>
    return (a, {}, .failed ⟨a.module.display, .learner a.module.name chosen candidates.length⟩)
  | some choice =>
    S.emit .learner a.module.display (ruleSource a.module choice.rule) "chose %s from %s options"
      [Combo.display choice.instantiated, toString candidates.length]
    return (a, { awaiting := .combo },
      .yield (a.comboFrames choice.combo choice.substitution choice.focus))

/-- With no candidates, the module is left or waits for the world to change. -/
def pause (a : Activation) : Exec σ ω (Activation × ChoiceState × Outcome) := do
  if ← S.exitHolds a then
    let (a, outcome) ← S.finish a
    return (a, {}, outcome)
  else
    let a ← S.nextPass a
    match S.eventPass a with
    | some frames => return (a, { awaiting := .eventPass false }, .yield frames)
    | none => return (a, {}, .yield [])

def offer (a : Activation) : Exec σ ω (Activation × ChoiceState × Outcome) := do
  match ← S.candidatesOf a.substitution a.module.rules.zipIdx with
  | .error failure => return (a, {}, .failed failure)
  | .ok [] => S.pause a
  | .ok candidates => S.decide a candidates

/-- Rewards the choice, and then leaves the module or goes on to the next one. -/
def settle (a : Activation) : Exec σ ω (Activation × ChoiceState × Outcome) := do
  S.reportReward a
  if ← S.mustStop a then
    let (a, outcome) ← S.finish a
    return (a, {}, outcome)
  else if ← S.exitHolds a then
    let (a, outcome) ← S.finish a
    return (a, {}, outcome)
  else
    let a ← S.nextPass a
    S.offer a

def resumeChoices (a : Activation) (state : ChoiceState) (previous : Option RunResult) :
    Exec σ ω (Activation × ChoiceState × Outcome) := do
  match state.absorb a previous with
  | (a, .acted) =>
    if ← S.mustStop a then
      S.reportReward a
      let (a, outcome) ← S.finish a
      return (a, {}, outcome)
    else
      match S.eventPass a with
      | some frames => return (a, { awaiting := .eventPass true }, .yield frames)
      | none => S.settle a
  | (a, .passed true) => S.settle a
  | (a, .passed false) | (a, .idle) =>
    if ← S.mustStop a then
      let (a, outcome) ← S.finish a
      return (a, {}, outcome)
    else S.offer a

end Setting

end CognitiveAgent
