import CognitiveAgent.Term.Substitution

/-!
Conditions on a mental state: conjunctions of literals about beliefs, goals and percepts. A
mental state answers them; here they are only instantiated and asked for their variables.
-/

set_option autoImplicit false

namespace CognitiveAgent

inductive Attitude where
  | belief
  | goal
  -- A goal not yet believed to be reached.
  | openGoal
  -- A goal believed to be reached.
  | reachedGoal
  | percept
deriving DecidableEq, Inhabited

namespace Attitude

def all : List Attitude := [.belief, .goal, .openGoal, .reachedGoal, .percept]

def keyword : Attitude → String
  | .belief => "bel"
  | .goal => "goal"
  | .openGoal => "a-goal"
  | .reachedGoal => "goal-a"
  | .percept => "percept"

def concernsGoals : Attitude → Bool
  | .goal | .openGoal | .reachedGoal => true
  | .belief | .percept => false

end Attitude

structure Literal where
  positive : Bool := true
  attitude : Attitude
  formula : Term
deriving Inhabited

namespace Literal

def negated (l : Literal) : Literal := { l with positive := !l.positive }

def apply (l : Literal) (s : Substitution) : Literal := { l with formula := l.formula.apply s }

def display (l : Literal) : String :=
  let statement := l.attitude.keyword ++ "(" ++ l.formula.display ++ ")"
  if l.positive then statement else "not(" ++ statement ++ ")"

end Literal

structure Condition where
  literals : List Literal
deriving Inhabited

namespace Condition

def always : Condition := ⟨[]⟩

def belief (formula : Term) : Condition := ⟨[{ attitude := .belief, formula }]⟩

def goal (formula : Term) : Condition := ⟨[{ attitude := .goal, formula }]⟩

def and (c : Condition) (l : Literal) : Condition := ⟨c.literals ++ [l]⟩

def isEmpty (c : Condition) : Bool := c.literals.isEmpty

def terms (c : Condition) : List Term := c.literals.map (·.formula)

/-- The variables that an answer can bind: those of the positive literals. -/
def freeVars (c : Condition) : List String :=
  Term.freeVarsAll ((c.literals.filter (·.positive)).map (·.formula))

def apply (c : Condition) (s : Substitution) : Condition := ⟨c.literals.map (·.apply s)⟩

def display (c : Condition) : String :=
  if c.literals.isEmpty then "true" else ", ".intercalate (c.literals.map Literal.display)

end Condition

end CognitiveAgent
