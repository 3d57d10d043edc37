import CognitiveAgent.Run.CallStack

/-!
Resumptions that may never return. Following the bindings of a variable that reaches itself has no
end, and nothing keeps such bindings from coming up: a listall rule can make them, and so can the
world. Here every resumption first asks of each instantiation whether it ends. As long as all do, it
goes on like the resumption that takes their end for granted; otherwise it has no result.
-/

set_option autoImplicit false

namespace CognitiveAgent

variable {σ ω α : Type}

/-- A computation that changes the situation, or never returns. -/
abbrev Attempt (σ ω α : Type) := StateT (Situation σ ω) Option α

namespace Attempt

def ofExec (computation : Exec σ ω α) : Attempt σ ω α := fun situation => computation situation

instance : MonadLift (Exec σ ω) (Attempt σ ω) := ⟨ofExec⟩

/-- Goes on only if what has to be done first comes to an end. -/
def provided (ends : Bool) : Attempt σ ω Unit := if ends then pure () else fun _ => none

end Attempt

open Attempt (provided)

/-! ### Bindings -/

namespace Evaluation

/-- Whether the answers can be merged with incoming bindings, and their goals be instantiated. -/
def instantiationsEnd (e : Evaluation) (incoming : Substitution) : Bool :=
  e.groups.all fun group => group.substitutions.all fun answer =>
    incoming.mergeEnds answer.bindings &&
      (incoming.combine answer).all fun bindings => !e.focus || group.goal.all bindings.resolves

def collectEnds (e : Evaluation) (names : List String) : Bool :=
  e.answers.all fun answer => names.all fun name => (answer.get? name).all answer.resolves

def searchEnds (s : Substitution) : List Substitution → Bool
  | [] => true
  | answer :: rest =>
    s.mergeEnds answer.bindings && ((s.combine answer).isSome || searchEnds s rest)

def extendEnds (e : Evaluation) (s : Substitution) : Bool := !e.holds || searchEnds s e.answers

end Evaluation

def Rule.instantiationsEnd (r : Rule) (e : Evaluation) (incoming : Substitution) : Bool :=
  match r.kind with
  | .listallDo _ => e.collectEnds (r.condition.apply incoming).freeVars
  | .ifThen | .forallDo => !e.holds || e.instantiationsEnd incoming

namespace Module

def matchEnds (caller : Substitution) : List (Term × Term) → Substitution → Bool
  | [], _ => true
  | (formal, actual) :: rest, bound =>
    caller.resolves actual &&
      (!(actual.apply caller).isClosed ||
        (bound.resolves formal &&
          match (formal.apply bound).mgu (actual.apply caller) with
          | none => true
          | some unifier =>
            bound.mergeEnds unifier.bindings &&
              match bound.combine unifier with
              | none => true
              | some extended => matchEnds caller rest extended))

def bindCallEnds (m : Module) (actuals : List Term) (caller : Substitution) : Bool :=
  m.anonymous || m.parameters.length != actuals.length ||
    matchEnds caller (m.parameters.zip actuals) .empty

end Module

/-- Whether the combo of a candidate can be instantiated. -/
def Candidate.resolves (c : Candidate) : Bool := (Combo.terms c.combo).all c.substitution.resolves

def PlanStep.resolves (step : PlanStep) : Bool := step.action.terms.all step.substitution.resolves

namespace Setting

variable (S : Setting σ ω)

/-! ### Rules and actions -/

def instantiate? (rule : Rule) (incoming : Substitution) :
    Attempt σ ω (Except Failure (List Instantiation)) := do
  provided (rule.condition.terms.all incoming.resolves)
  S.emit .ruleCondition rule.display rule.source "evaluating condition %s"
    [(rule.condition.apply incoming).display]
  match ← S.ask (.evaluate rule.condition incoming) with
  | .error fault => return .error ⟨rule.display, .mental fault⟩
  | .ok evaluation =>
    provided (rule.instantiationsEnd evaluation incoming)
    return .ok (rule.instantiations evaluation incoming)

def resumeRule? (f : RuleFrame) (previous : Option RunResult) :
    Attempt σ ω (RuleFrame × Outcome) := do
  match f.pending with
  | some _ => S.resumeRule f previous
  | none =>
    match ← S.instantiate? f.rule f.substitution with
    | .error failure => return (f, .failed failure)
    | .ok options =>
      let options ← (arrange f.order options : Exec σ ω _)
      S.fire f options

def userBindings? (action : UserAction) (substitution : Substitution) :
    Attempt σ ω (Except MentalFault (Option Substitution)) := do
  if action.pre.isEmpty then
    return .ok (some substitution)
  else
    provided (action.pre.terms.all substitution.resolves)
    S.emit .actionPrecondition action.display action.source "evaluating precondition %s of %s"
      [(action.pre.apply substitution).display, action.display]
    match ← S.ask (.evaluate action.pre substitution) with
    | .error fault => return .error fault
    | .ok evaluation =>
      provided (evaluation.extendEnds substitution)
      return .ok (evaluation.extend? substitution)

def performUser? (action : UserAction) (substitution : Substitution) : Attempt σ ω Outcome := do
  match ← S.userBindings? action substitution with
  | .error fault => return .failed ⟨action.display, .mental fault⟩
  | .ok none => return .done .start
  | .ok (some bindings) =>
    provided ((Action.user action).terms.all bindings.resolves)
    S.carryOut (action.apply bindings)

def callEnds (target : CallTarget) (params : List Term) (caller : Substitution) : Bool :=
  match S.callee target with
  | .error _ => true
  | .ok m => m.bindCallEnds params caller

def resumeAction? (f : ActionFrame) (previous : Option RunResult) :
    Attempt σ ω (ActionFrame × Outcome) := do
  match f.called, f.action with
  | some _, _ => S.resumeAction f previous
  | none, .user action => return (f, ← S.performUser? action f.substitution)
  | none, .mental action =>
    provided (action.terms.all f.substitution.resolves)
    S.resumeAction f previous
  | none, .call target params _ =>
    provided (S.callEnds target params f.substitution)
    S.resumeAction f previous

/-! ### Modules -/

/-- Instantiates terms one by one and asks for an update with each, up to the first that is
refused. -/
def updateAll? (update : Term → Exec σ ω (Except MentalFault Update)) (s : Substitution) :
    List Term → Attempt σ ω (Except MentalFault Unit)
  | [] => return .ok ()
  | t :: rest => do
    provided (s.resolves t)
    match ← update (t.apply s) with
    | .error fault => return .error fault
    | .ok _ => updateAll? update s rest

def furnish? (a : Activation) : Attempt σ ω (Except MentalFault Unit) := do
  match ← S.enterFocus a.module a.focus with
  | .error fault => return .error fault
  | .ok () =>
    match ← updateAll? (fun belief => S.ask (.insert belief)) a.substitution a.module.beliefs with
    | .error fault => return .error fault
    | .ok () => updateAll? (fun goal => S.ask (.adopt goal)) a.substitution a.module.goals

def prepare? (a : Activation) : Attempt σ ω (Activation × Option Failure) := do
  let a := { a with order := (a.module.order <|> a.inherited).getD S.defaultOrder }
  match ← S.furnish? a with
  | .error fault => return (a, some ⟨a.module.display, .mental fault⟩)
  | .ok () =>
    (Situation.enter a.module.name : Exec σ ω Unit)
    S.emit .moduleEntry a.module.display a.module.source "entered %s with %s"
      [a.module.display, a.substitution.display]
    return ({ a with prepared := true }, none)

def candidatesOf? (incoming : Substitution) :
    List (Rule × Nat) → Attempt σ ω (Except Failure (List Candidate))
  | [] => return .ok []
  | (rule, index) :: rest => do
    match ← S.instantiate? rule incoming with
    | .error failure => return .error failure
    | .ok options =>
      match ← candidatesOf? incoming rest with
      | .error failure => return .error failure
      | .ok others =>
        let candidates := options.map fun option =>
          { rule := index, combo := rule.combo, substitution := option.substitution,
            focus := option.focus : Candidate }
        return .ok (candidates ++ others)

def decide? (a : Activation) (candidates : List Candidate) :
    Attempt σ ω (Activation × ChoiceState × Outcome) := do
  let chosen ← S.ask (.choose a.module.name candidates)
  match candidates[chosen]? with
  | none =>
    return (a, {}, .failed ⟨a.module.display, .learner a.module.name chosen candidates.length⟩)
  | some choice =>
    provided choice.resolves
    S.emit .learner a.module.display (ruleSource a.module choice.rule) "chose %s from %s options"
      [Combo.display choice.instantiated, toString candidates.length]
    return (a, { awaiting := .combo },
      .yield (a.comboFrames choice.combo choice.substitution choice.focus))

def offer? (a : Activation) : Attempt σ ω (Activation × ChoiceState × Outcome) := do
  match ← S.candidatesOf? a.substitution a.module.rules.zipIdx with
  | .error failure => return (a, {}, .failed failure)
  | .ok [] => S.pause a
  | .ok candidates => S.decide? a candidates

def settle? (a : Activation) : Attempt σ ω (Activation × ChoiceState × Outcome) := do
  S.reportReward a
  if ← S.mustStop a then
    let (a, outcome) ← S.finish a
    return (a, {}, outcome)
  else if ← S.exitHolds a then
    let (a, outcome) ← S.finish a
    return (a, {}, outcome)
  else
    let a ← S.nextPass a
    S.offer? a

def resumeChoices? (a : Activation) (state : ChoiceState) (previous : Option RunResult) :
    Attempt σ ω (Activation × ChoiceState × Outcome) := do
  match state.absorb a previous with
  | (a, .acted) =>
    if ← S.mustStop a then
      S.reportReward a
      let (a, outcome) ← S.finish a
      return (a, {}, outcome)
    else
      match S.eventPass a with
      | some frames => return (a, { awaiting := .eventPass true }, .yield frames)
      | none => S.settle? a
  | (a, .passed true) => S.settle? a
  | (a, .passed false) | (a, .idle) =>
    if ← S.mustStop a then
      let (a, outcome) ← S.finish a
      return (a, {}, outcome)
    else S.offer? a

def runStep? (a : Activation) (step : PlanStep) : Attempt σ ω Outcome := do
  provided step.resolves
  S.runStep a step

def replan? (a : Activation) (state : PlanState) :
    Attempt σ ω (Activation × PlanState × Outcome) := do
  match ← S.ask (.plan a.module a.substitution) with
  | .error fault => return (a, state, .failed ⟨a.module.display, .planner fault⟩)
  | .ok plan =>
    S.emit .plan a.module.display a.module.source "new plan with %s steps"
      [toString (plan.getD []).length]
    let state := { state with plan }
    match state.take? with
    | some (step, state) => return (a, state, ← S.runStep? a step)
    | none => return (a, state, .yield [])

def resumePlans? (a : Activation) (state : PlanState) (previous : Option RunResult) :
    Attempt σ ω (Activation × PlanState × Outcome) := do
  let (a, state) := state.absorb a previous
  if ← S.mustStop a then
    let (a, outcome) ← S.finish a
    return (a, state, outcome)
  else
    match state.take? with
    | some (step, state) => return (a, state, ← S.runStep? a step)
    | none =>
      let state := { state with plan := none }
      if state.plannedBefore then
        if ← S.exitHolds a then
          let (a, outcome) ← S.finish a
          return (a, state, outcome)
        else
          let a ← S.nextPass a
          S.replan? a state
      else S.replan? a { state with plannedBefore := true }

def pursue? (a : Activation) (strategy : StrategyState) (previous : Option RunResult) :
    Attempt σ ω (ModuleFrame × Outcome) := do
  match strategy with
  | .passes state =>
    let (a, state, outcome) ← S.resumePasses a state previous
    return (⟨a, .passes state⟩, outcome)
  | .choices state =>
    let (a, state, outcome) ← S.resumeChoices? a state previous
    return (⟨a, .choices state⟩, outcome)
  | .plans state =>
    let (a, state, outcome) ← S.resumePlans? a state previous
    return (⟨a, .plans state⟩, outcome)

def resumeModule? (f : ModuleFrame) (previous : Option RunResult) :
    Attempt σ ω (ModuleFrame × Outcome) := do
  if f.activation.prepared then S.pursue? f.activation f.strategy previous
  else
    match ← S.prepare? f.activation with
    | (a, some failure) => return (⟨a, f.strategy⟩, .failed failure)
    | (a, none) => S.pursue? a f.strategy previous

/-! ### Frames -/

def resumeWith? (f : Frame) (previous : Option RunResult) : Attempt σ ω (Frame × Outcome) := do
  match f with
  | .module frame =>
    let (frame, outcome) ← S.resumeModule? frame previous
    return (.module frame, outcome)
  | .rule frame =>
    let (frame, outcome) ← S.resumeRule? frame previous
    return (.rule frame, outcome)
  | .action frame =>
    let (frame, outcome) ← S.resumeAction? frame previous
    return (.action frame, outcome)
  | .combo _ | .hole => S.resumeWith f previous

def resume? (f : Frame) (previous : Option Completed) : Attempt σ ω (Frame × Outcome) := do
  match previous with
  | none => S.resumeWith? f none
  | some completed =>
    match completed.result with
    | .error failure => return (f, .failed failure)
    | .ok result => S.resumeWith? f (some result)

end Setting

end CognitiveAgent
