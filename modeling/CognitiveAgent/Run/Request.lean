import CognitiveAgent.Program.Module
import CognitiveAgent.Run.Failure

/-!
Requests: everything an interpreter asks of the world around it, with the kind of answer that
each request gets. The world comprises the agent's mental state, its environment, a learner, a
planner and the signal to stop.
-/

set_option autoImplicit false

namespace CognitiveAgent

structure AnswerGroup where
  goal : Option Term
  substitutions : List Substitution
deriving Inhabited

structure Evaluation where
  holds : Bool
  -- Whether the answers' goals become the focus of what follows.
  focus : Bool
  groups : List AnswerGroup
deriving Inhabited

namespace Evaluation

def failed : Evaluation := ⟨false, false, []⟩

/-- The condition holds with these answers, if there are any. -/
def ofAnswers (answers : List Substitution) : Evaluation :=
  ⟨!answers.isEmpty, false, [⟨none, answers⟩]⟩

def answers (e : Evaluation) : List Substitution := e.groups.flatMap (·.substitutions)

end Evaluation

structure Update where
  added : List Term := []
  removed : List Term := []
deriving Inhabited

def Update.isEmpty (u : Update) : Bool := u.added.isEmpty && u.removed.isEmpty

structure Candidate where
  rule : Nat
  combo : List Action
  substitution : Substitution
  focus : Option Term

def Candidate.instantiated (c : Candidate) : List Action := Combo.apply c.combo c.substitution

structure PlanStep where
  action : Action
  substitution : Substitution

/-- A plan is the steps that are left of it. -/
abbrev Plan := List PlanStep

inductive Request where
  | evaluate (condition : Condition) (substitution : Substitution)
  | insert (belief : Term)
  | delete (belief : Term)
  | adopt (goal : Term)
  | drop (goal : Term)
  | hasGoals
  | enterFocus (module : String) (method : FocusMethod) (goal : Option Term)
  | exitFocus (module : String)
  | perform (action : UserAction)
  | reward
  | choose (module : String) (candidates : List Candidate)
  | learn (module : String) (reward : Number)
  | plan (module : Module) (substitution : Substitution)
  | stopSignal

@[reducible]
def Request.Answer : Request → Type
  | .evaluate .. => Except MentalFault Evaluation
  | .insert _ | .delete _ | .adopt _ | .drop _ => Except MentalFault Update
  | .hasGoals => Bool
  | .enterFocus .. | .exitFocus _ => Except MentalFault Unit
  | .perform _ => Except EnvironmentFault Unit
  | .reward => Option Number
  | .choose .. => Nat
  | .learn .. => Unit
  | .plan .. => Except PlannerFault (Option Plan)
  | .stopSignal => Bool

end CognitiveAgent
