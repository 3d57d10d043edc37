import CognitiveAgent.Run.Frame
import CognitiveAgent.Run.Parameters
import CognitiveAgent.Run.Setting

/-!
Actions and combos. An action whose precondition does not hold is skipped without a failure. A
combo goes on to its next action unless a plain action asked to stop or did nothing; calls of
modules never end it.
-/

set_option autoImplicit false

namespace CognitiveAgent

/-- The bindings under which an action runs: its own if there is no answer at all, else merged
with the first answer that fits. -/
def Evaluation.extend? (e : Evaluation) (s : Substitution) : Option Substitution :=
  if e.holds then
    match e.answers with
    | [] => some s
    | answers => answers.findSome? s.combine
  else none

def MentalAction.unbound (a : MentalAction) : List String :=
  match a.updateTerm with
  | some term => term.freeVars
  | none => []

namespace ComboFrame

/-- Starts the next action, or ends the combo after its last one. -/
def next (f : ComboFrame) : List Action → ComboFrame × Outcome
  | [] => ({ f with pending := some [] }, .done f.result)
  | action :: rest =>
    ({ f with pending := some rest, lastWasCall := action.isCall },
      .yield [.action
        { action, substitution := f.substitution, focus := f.focus, order := f.order }])

def resume (f : ComboFrame) (previous : Option RunResult) : ComboFrame × Outcome :=
  match f.pending, previous with
  | none, _ => f.next f.combo
  | some pending, none => f.next pending
  | some pending, some result =>
    let f := { f with result := f.result.merge result }
    if !f.lastWasCall && result.isFailure then (f, .done f.result) else f.next pending

end ComboFrame

namespace Setting

variable {σ ω : Type} (S : Setting σ ω)

def applyEffects : List Effect → Exec σ ω (Except MentalFault Unit)
  | [] => return .ok ()
  | .insert belief :: rest => do
    match ← S.ask (.insert belief) with
    | .error fault => return .error fault
    | .ok _ => applyEffects rest
  | .delete belief :: rest => do
    match ← S.ask (.delete belief) with
    | .error fault => return .error fault
    | .ok _ => applyEffects rest

/-- Performs an action, which must be closed in its parameters, and then its effects. -/
def carryOut (ground : UserAction) : Exec σ ω Outcome := do
  if ground.freeVars.isEmpty then
    match ← S.ask (.perform ground) with
    | .error fault => return .failed ⟨ground.display, .environment fault⟩
    | .ok () =>
      match ← S.applyEffects ground.post with
      | .error fault => return .failed ⟨ground.display, .mental fault⟩
      | .ok () =>
        S.emit .userAction ground.display ground.source "performed %s" [ground.display]
        return .done .realAction
  else
    return .failed ⟨ground.display, .unboundVariables ("action " ++ ground.display) ground.freeVars⟩

/-- The bindings under which a user action is to be performed, if it is not to be skipped. -/
def userBindings (action : UserAction) (substitution : Substitution) :
    Exec σ ω (Except MentalFault (Option Substitution)) := do
  if action.pre.isEmpty then
    return .ok (some substitution)
  else
    S.emit .actionPrecondition action.display action.source "evaluating precondition %s of %s"
      [(action.pre.apply substitution).display, action.display]
    match ← S.ask (.evaluate action.pre substitution) with
    | .error fault => return .error fault
    | .ok evaluation => return .ok (evaluation.extend? substitution)

def performUser (action : UserAction) (substitution : Substitution) : Exec σ ω Outcome := do
  match ← S.userBindings action substitution with
  | .error fault => return .failed ⟨action.display, .mental fault⟩
  | .ok none => return .done .start
  | .ok (some bindings) => S.carryOut (action.apply bindings)

/-- Asks for the update of a mental action, or does without the world where there is none. -/
def mentalResult : MentalAction → Exec σ ω (Except MentalFault RunResult)
  | .insert belief => do
    match ← S.ask (.insert belief) with
    | .error fault => return .error fault
    | .ok _ => return .ok .action
  | .delete belief => do
    match ← S.ask (.delete belief) with
    | .error fault => return .error fault
    | .ok _ => return .ok .action
  | .adopt goal => do
    match ← S.ask (.adopt goal) with
    | .error fault => return .error fault
    | .ok _ => return .ok .action
  | .drop goal => do
    match ← S.ask (.drop goal) with
    | .error fault => return .error fault
    | .ok _ => return .ok .action
  | .exit => return .ok { RunResult.action with status := .softStop }
  | .log term => do
    S.log term
    return .ok .action

def performMental (action : MentalAction) : Exec σ ω Outcome := do
  if action.unbound.isEmpty then
    match ← S.mentalResult action with
    | .error fault => return .failed ⟨action.display, .mental fault⟩
    | .ok result =>
      S.emit .mentalAction action.display none "performed %s" [action.display]
      return .done result
  else
    return .failed ⟨action.display, .unboundVariables ("action " ++ action.display) action.unbound⟩

def callee : CallTarget → Except Cause Module
  | .named name =>
    match S.program.module? name with
    | some m => .ok m
    | none => .error (.unknownModule name)
  | .inPlace body => .ok body

def expandCall (f : ActionFrame) (target : CallTarget) (params : List Term)
    (source : Option Location) : Exec σ ω (ActionFrame × Outcome) := do
  match S.callee target with
  | .error cause => return (f, .failed ⟨f.action.display, cause⟩)
  | .ok m =>
    match m.bindCall params f.substitution with
    | .error cause => return (f, .failed ⟨f.action.display, cause⟩)
    | .ok bindings =>
      S.emit .callModule m.display source "calling module %s with %s" [m.display, bindings.display]
      return ({ f with called := some m.anonymous },
        .yield [.module (.start m bindings (some f.order) f.focus)])

def resumeAction (f : ActionFrame) (previous : Option RunResult) :
    Exec σ ω (ActionFrame × Outcome) := do
  match f.called with
  | some anonymous => return (f, .done ((previous.getD .start).ofCall anonymous))
  | none =>
    match f.action with
    | .user action => return (f, ← S.performUser action f.substitution)
    | .mental action => return (f, ← S.performMental (action.apply f.substitution))
    | .call target params source => S.expandCall f target params source

end Setting

end CognitiveAgent
