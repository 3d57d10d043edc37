/-!
Execution policies of a module: the order in which rules are tried, when the module is left,
which goals it attends to, and how it picks its work.
-/

set_option autoImplicit false

namespace CognitiveAgent

inductive RuleOrder where
  | linear
  | linearAll
  | random
  | randomAll
  | linearRandom
  | linearAllRandom
deriving DecidableEq, Inhabited

namespace RuleOrder

def all : List RuleOrder :=
  [.linear, .linearAll, .random, .randomAll, .linearRandom, .linearAllRandom]

def keyword : RuleOrder → String
  | .linear => "linear"
  | .linearAll => "linearall"
  | .random => "random"
  | .randomAll => "randomall"
  | .linearRandom => "linearrandom"
  | .linearAllRandom => "linearallrandom"

/-- A pass tries all rules, also after one of them has acted. -/
def triesAll : RuleOrder → Bool
  | .linearAll | .randomAll | .linearAllRandom => true
  | .linear | .random | .linearRandom => false

def shufflesRules : RuleOrder → Bool
  | .random | .randomAll => true
  | .linear | .linearAll | .linearRandom | .linearAllRandom => false

def shufflesInstantiations : RuleOrder → Bool
  | .random | .randomAll | .linearRandom | .linearAllRandom => true
  | .linear | .linearAll => false

end RuleOrder

inductive ExitCondition where
  | noGoals
  | noAction
  | always
  | never
deriving DecidableEq

namespace ExitCondition

instance : Inhabited ExitCondition := ⟨.always⟩

def all : List ExitCondition := [.noGoals, .noAction, .always, .never]

def keyword : ExitCondition → String
  | .noGoals => "nogoals"
  | .noAction => "noaction"
  | .always => "always"
  | .never => "never"

end ExitCondition

inductive FocusMethod where
  | none
  | new
  | filter
  | select
deriving DecidableEq, Inhabited

namespace FocusMethod

def all : List FocusMethod := [.none, .new, .filter, .select]

def keyword : FocusMethod → String
  | .none => "none"
  | .new => "new"
  | .filter => "filter"
  | .select => "select"

def title : FocusMethod → String
  | .none => "None"
  | .new => "New"
  | .filter => "Filter"
  | .select => "Select"

end FocusMethod

/-- How a module picks its work: rules in order, a learner's choice, or the steps of a plan. -/
inductive Strategy where
  | linear
  | adaptive
  | planning
deriving DecidableEq, Inhabited

namespace Strategy

def all : List Strategy := [.linear, .adaptive, .planning]

def keyword : Strategy → String
  | .linear => "linear"
  | .adaptive => "adaptive"
  | .planning => "planning"

end Strategy

end CognitiveAgent
