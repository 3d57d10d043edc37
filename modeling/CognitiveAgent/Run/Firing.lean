import CognitiveAgent.Run.Frame
import CognitiveAgent.Run.Setting
import CognitiveAgent.Term.Unification

/-!
Firing rules. A rule's condition is evaluated once. Each answer that fits the bindings at hand is
an instantiation of the rule; a listall rule has exactly one, which binds its variable to the
list of all answers.
-/

set_option autoImplicit false

namespace CognitiveAgent

namespace Evaluation

def instantiations (e : Evaluation) (incoming : Substitution) : List Instantiation :=
  e.groups.flatMap fun group =>
    group.substitutions.filterMap fun answer =>
      (incoming.combine answer).map fun bindings =>
        { substitution := bindings
          focus := if e.focus then group.goal.map (·.apply bindings) else none }

def valueOf (answer : Substitution) (name : String) : Term :=
  match answer.get? name with
  | some term => term.apply answer
  | none => .var name

/-- One item of a listall list: the value of a single variable, or the list of the values of
several ones. -/
def item (names : List String) (answer : Substitution) : Term :=
  match names with
  | [name] => valueOf answer name
  | names => .list (names.map (valueOf answer))

/-- The incoming bindings with a variable bound to the list of all answers. -/
def collect (e : Evaluation) (condition : Condition) (name : String) (incoming : Substitution) :
    Substitution :=
  let names := (condition.apply incoming).freeVars
  incoming.bind name (.list (e.answers.map (item names)))

end Evaluation

def Rule.instantiations (r : Rule) (e : Evaluation) (incoming : Substitution) :
    List Instantiation :=
  match r.kind with
  | .listallDo name => [{ substitution := e.collect r.condition name incoming, focus := none }]
  | .ifThen | .forallDo => if e.holds then e.instantiations incoming else []

namespace RuleFrame

/-- Whether the rule is finished by the result of a combo it has fired. -/
def endsWith (f : RuleFrame) (result : RunResult) : Bool :=
  !result.isRunning || (f.rule.kind == .ifThen && result.performedAction)

end RuleFrame

namespace Setting

variable {σ ω : Type} (S : Setting σ ω)

def instantiate (rule : Rule) (incoming : Substitution) :
    Exec σ ω (Except Failure (List Instantiation)) := do
  S.emit .ruleCondition rule.display rule.source "evaluating condition %s"
    [(rule.condition.apply incoming).display]
  match ← S.ask (.evaluate rule.condition incoming) with
  | .error fault => return .error ⟨rule.display, .mental fault⟩
  | .ok evaluation => return .ok (rule.instantiations evaluation incoming)

def arrange (order : RuleOrder) (options : List Instantiation) : Exec σ ω (List Instantiation) :=
  if order.shufflesInstantiations && 1 < options.length then Situation.shuffle options
  else pure options

/-- Fires the next instantiation, or ends the rule after its last one. -/
def fire (f : RuleFrame) : List Instantiation → Exec σ ω (RuleFrame × Outcome)
  | [] => return ({ f with pending := some [] }, .done f.result)
  | option :: rest => do
    S.emit .ruleFired f.rule.display f.rule.source "firing %s with %s"
      [Combo.display f.rule.combo, option.substitution.display]
    return ({ f with pending := some rest },
      .yield [.combo { combo := f.rule.combo, substitution := option.substitution,
                       focus := option.focus, order := f.order }])

def resumeRule (f : RuleFrame) (previous : Option RunResult) : Exec σ ω (RuleFrame × Outcome) := do
  match f.pending, previous with
  | none, _ =>
    match ← S.instantiate f.rule f.substitution with
    | .error failure => return (f, .failed failure)
    | .ok options => S.fire f (← arrange f.order options)
  | some pending, none => S.fire f pending
  | some pending, some result =>
    let f := { f with result := f.result.merge result }
    if f.endsWith result then return (f, .done f.result) else S.fire f pending

end Setting

end CognitiveAgent
