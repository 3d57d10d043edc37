import CognitiveAgent.Program.Condition
import CognitiveAgent.Program.Policy

/-!
Actions, rules and modules. The three are defined together, because an action can call a module
that is written out in place.
-/

set_option autoImplicit false

namespace CognitiveAgent

structure Location where
  file : String
  line : UInt32
  column : UInt32
deriving DecidableEq, Inhabited

def Location.display (l : Location) : String :=
  l.file ++ ":" ++ toString l.line.toNat ++ ":" ++ toString l.column.toNat

inductive Effect where
  | insert (belief : Term)
  | delete (belief : Term)
deriving Inhabited

def Effect.apply (e : Effect) (s : Substitution) : Effect :=
  match e with
  | .insert belief => .insert (belief.apply s)
  | .delete belief => .delete (belief.apply s)

def Effect.terms : Effect → List Term
  | .insert belief | .delete belief => [belief]

structure UserAction where
  name : String
  params : List Term := []
  pre : Condition := .always
  post : List Effect := []
  source : Option Location := none
deriving Inhabited

namespace UserAction

def apply (a : UserAction) (s : Substitution) : UserAction :=
  { a with
    params := a.params.map (·.apply s)
    pre := a.pre.apply s
    post := a.post.map (·.apply s) }

def freeVars (a : UserAction) : List String := Term.freeVarsAll a.params

def display (a : UserAction) : String := Term.displayCall a.name a.params

end UserAction

inductive MentalAction where
  | insert (belief : Term)
  | delete (belief : Term)
  | adopt (goal : Term)
  | drop (goal : Term)
  | exit
  | log (term : Term)
deriving Inhabited

namespace MentalAction

def apply (a : MentalAction) (s : Substitution) : MentalAction :=
  match a with
  | .insert belief => .insert (belief.apply s)
  | .delete belief => .delete (belief.apply s)
  | .adopt goal => .adopt (goal.apply s)
  | .drop goal => .drop (goal.apply s)
  | .exit => .exit
  | .log term => .log (term.apply s)

def terms : MentalAction → List Term
  | .insert t | .delete t | .adopt t | .drop t | .log t => [t]
  | .exit => []

def updateTerm : MentalAction → Option Term
  | .insert t | .delete t | .adopt t | .drop t => some t
  | .exit | .log _ => none

def display : MentalAction → String
  | .insert belief => "insert(" ++ belief.display ++ ")"
  | .delete belief => "delete(" ++ belief.display ++ ")"
  | .adopt goal => "adopt(" ++ goal.display ++ ")"
  | .drop goal => "drop(" ++ goal.display ++ ")"
  | .exit => "exit-module"
  | .log term => "log(" ++ term.display ++ ")"

end MentalAction

inductive RuleKind where
  | ifThen
  | forallDo
  -- Fires once, with the variable bound to the list of all answers.
  | listallDo (name : String)
deriving DecidableEq, Inhabited

mutual

inductive Action where
  | user (action : UserAction)
  | call (target : CallTarget) (params : List Term) (source : Option Location)
  | mental (action : MentalAction)

inductive CallTarget where
  | named (name : String)
  | inPlace (body : Module)

structure Rule where
  kind : RuleKind
  condition : Condition
  combo : List Action
  source : Option Location

structure Module where
  name : String
  parameters : List Term
  rules : List Rule
  order : Option RuleOrder
  exit : ExitCondition
  focus : FocusMethod
  anonymous : Bool
  beliefs : List Term
  goals : List Term
  strategy : Strategy
  source : Option Location

end

instance : Inhabited Action := ⟨.mental default⟩

instance : Inhabited Rule := ⟨⟨default, default, [], none⟩⟩

namespace Module

def parameterVars (m : Module) : List String := Term.freeVarsAll m.parameters

def display (m : Module) : String :=
  if m.parameters.isEmpty then m.name else m.name ++ "/" ++ toString m.parameters.length

end Module

namespace Action

def isCall : Action → Bool
  | .call .. => true
  | .user _ | .mental _ => false

def precondition : Action → Option Condition
  | .user action => some action.pre
  | .call .. | .mental _ => none

def source : Action → Option Location
  | .user action => action.source
  | .call _ _ source => source
  | .mental _ => none

/-- The terms of an action, without those of a module written out in place. -/
def terms : Action → List Term
  | .user action => action.params ++ (action.pre.terms ++ action.post.flatMap (·.terms))
  | .call _ params _ => params
  | .mental action => action.terms

/-- Instantiates an action. The body of a module written out in place is left alone. -/
def apply (a : Action) (s : Substitution) : Action :=
  match a with
  | .user action => .user (action.apply s)
  | .call target params source => .call target (params.map (·.apply s)) source
  | .mental action => .mental (action.apply s)

def display : Action → String
  | .user action => action.display
  | .call (.named name) params _ => Term.displayCall name params
  | .call (.inPlace body) _ _ => "\x7b" ++ body.name ++ "\x7d"
  | .mental action => action.display

end Action

abbrev Combo := List Action

namespace Combo

def terms (combo : List Action) : List Term := combo.flatMap (·.terms)

def apply (combo : List Action) (s : Substitution) : List Action := combo.map (·.apply s)

def display (combo : List Action) : String := " + ".intercalate (combo.map Action.display)

end Combo

def Rule.display (r : Rule) : String :=
  match r.kind with
  | .ifThen => "if " ++ r.condition.display ++ " then " ++ Combo.display r.combo
  | .forallDo => "forall " ++ r.condition.display ++ " do " ++ Combo.display r.combo
  | .listallDo name =>
    "listall " ++ name ++ " <- " ++ r.condition.display ++ " do " ++ Combo.display r.combo

end CognitiveAgent
