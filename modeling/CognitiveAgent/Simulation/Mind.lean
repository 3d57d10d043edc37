import CognitiveAgent.Run.Request
import CognitiveAgent.Term.Unification

/-!
A simulated mental state: lists of beliefs, percepts and goals, with a stack of attention sets.
Conditions are answered by matching their literals with the facts in order. For experiments, some
conditions can be given canned answers, and some operations can be made to fail.
-/

set_option autoImplicit false

namespace CognitiveAgent.Simulation

inductive Operation where
  | evaluate
  | insert
  | delete
  | adopt
  | drop
  | enterFocus
  | exitFocus
deriving DecidableEq

namespace Operation

def all : List Operation := [.evaluate, .insert, .delete, .adopt, .drop, .enterFocus, .exitFocus]

def keyword : Operation → String
  | .evaluate => "evaluate"
  | .insert => "insert"
  | .delete => "delete"
  | .adopt => "adopt"
  | .drop => "drop"
  | .enterFocus => "enter_focus"
  | .exitFocus => "exit_focus"

end Operation

/-- An operation that is to fail, for one text or for all. -/
structure Sabotage where
  operation : Operation
  text : Option String
  reason : String

structure Canned where
  condition : String
  evaluation : Evaluation

structure AttentionSet where
  module : String
  goals : List Term

structure Mind where
  beliefs : List Term := []
  percepts : List Term := []
  goals : List Term := []
  -- The innermost set comes first.
  attention : List AttentionSet := []
  focusOnGoals : Bool := false
  canned : List Canned := []
  sabotages : List Sabotage := []

/-- An answer to the literals read so far, with the first goal that it has matched. -/
structure Answer where
  substitution : Substitution
  goal : Option Term

namespace Mind

def currentGoals (m : Mind) : List Term :=
  match m.attention with
  | set :: _ => set.goals
  | [] => m.goals

def withCurrentGoals (m : Mind) (goals : List Term) : Mind :=
  match m.attention with
  | set :: rest => { m with attention := { set with goals } :: rest }
  | [] => { m with goals }

def believes (m : Mind) (t : Term) : Bool := m.beliefs.contains t

def refusal? (m : Mind) (operation : Operation) (text : String) : Option String :=
  let concerns (s : Sabotage) : Bool :=
    s.operation == operation && (s.text.isNone || s.text == some text)
  (m.sabotages.find? concerns).map (·.reason)

def base (m : Mind) : Attitude → List Term
  | .belief => m.beliefs
  | .percept => m.percepts
  | .goal => m.currentGoals
  | .openGoal => m.currentGoals.filter fun goal => !m.believes goal
  | .reachedGoal => m.currentGoals.filter m.believes

/-- The ways to match a literal on top of an answer. -/
def extensions (m : Mind) (l : Literal) (answer : Answer) : List Answer :=
  (m.base l.attitude).filterMap fun fact => do
    let unifier ← (l.formula.apply answer.substitution).mgu fact
    let substitution ← answer.substitution.combine unifier
    let goal := answer.goal <|> (if l.attitude.concernsGoals then some fact else none)
    return { substitution, goal }

/-- The answers that remain of one after a literal. A negative literal binds nothing. -/
def continuations (m : Mind) (l : Literal) (answer : Answer) : List Answer :=
  let found := m.extensions l answer
  if l.positive then found else if found.isEmpty then [answer] else []

def answersTo (m : Mind) (c : Condition) : List Answer :=
  c.literals.foldl (fun answers l => answers.flatMap (m.continuations l)) [⟨.empty, none⟩]

def sameGoal : Option Term → Option Term → Bool
  | none, none => true
  | some a, some b => a == b
  | _, _ => false

def addToGroup (answer : Answer) : List AnswerGroup → List AnswerGroup
  | [] => [{ goal := answer.goal, substitutions := [answer.substitution] }]
  | group :: groups =>
    if sameGoal group.goal answer.goal then
      { group with substitutions := group.substitutions ++ [answer.substitution] } :: groups
    else group :: addToGroup answer groups

def evaluation (m : Mind) (answers : List Answer) : Evaluation :=
  if answers.isEmpty then .failed
  else if m.focusOnGoals then
    { holds := true, focus := true,
      groups := answers.foldl (fun groups a => addToGroup a groups) [] }
  else .ofAnswers (answers.map (·.substitution))

def evaluate (m : Mind) (c : Condition) (s : Substitution) : Except MentalFault Evaluation :=
  let instantiated := c.apply s
  match m.refusal? .evaluate instantiated.display with
  | some reason => .error (.query instantiated.display reason)
  | none =>
    match m.canned.find? (·.condition == c.display) with
    | some canned => .ok canned.evaluation
    | none => .ok (m.evaluation (m.answersTo instantiated))

def dropReached (m : Mind) : Mind :=
  let isOpen (goal : Term) : Bool := !m.believes goal
  { m with
    goals := m.goals.filter isOpen
    attention := m.attention.map fun set => { set with goals := set.goals.filter isOpen } }

def guardUpdate (m : Mind) (operation : Operation) (t : Term) (change : Update × Mind) :
    Except MentalFault Update × Mind :=
  match m.refusal? operation t.display with
  | some reason => (.error (.update (operation.keyword ++ "(" ++ t.display ++ ")") reason), m)
  | none => (.ok change.1, change.2)

def insert (m : Mind) (t : Term) : Except MentalFault Update × Mind :=
  m.guardUpdate .insert t <|
    if m.believes t then ({}, m.dropReached)
    else ({ added := [t] }, dropReached { m with beliefs := m.beliefs ++ [t] })

def delete (m : Mind) (t : Term) : Except MentalFault Update × Mind :=
  m.guardUpdate .delete t <|
    if m.believes t then ({ removed := [t] }, { m with beliefs := m.beliefs.filter (· != t) })
    else ({}, m)

def adopt (m : Mind) (t : Term) : Except MentalFault Update × Mind :=
  m.guardUpdate .adopt t <|
    if m.currentGoals.contains t || m.believes t then ({}, m)
    else ({ added := [t] }, m.withCurrentGoals (m.currentGoals ++ [t]))

def drop (m : Mind) (t : Term) : Except MentalFault Update × Mind :=
  let fits (goal : Term) : Bool := (goal.mgu t).isSome
  m.guardUpdate .drop t
    ({ removed := m.currentGoals.filter fits },
      m.withCurrentGoals (m.currentGoals.filter fun goal => !fits goal))

def enterFocus (m : Mind) (module : String) (method : FocusMethod) (goal : Option Term) :
    Except MentalFault Unit × Mind :=
  match m.refusal? .enterFocus module with
  | some _ => (.error (.noFocus module), m)
  | none =>
    let goals :=
      match method, goal with
      | .new, _ => []
      | _, some goal => [goal]
      | _, none => m.currentGoals
    (.ok (), { m with attention := { module, goals } :: m.attention })

def exitFocus (m : Mind) (module : String) : Except MentalFault Unit × Mind :=
  match m.refusal? .exitFocus module with
  | some _ => (.error (.noFocus module), m)
  | none =>
    match m.attention with
    | [] => (.error (.noFocus module), m)
    | set :: rest =>
      (if set.module = module then .ok () else .error (.noFocus module),
        { m with attention := rest })

end Mind

end CognitiveAgent.Simulation
