import CognitiveAgent.Random.Stream
import CognitiveAgent.Simulation.Mind

/-!
A simulated world for an agent: a simulated mental state, an environment that refuses some actions
and pays rewards in order, a learner that makes prepared choices, a planner that hands out
prepared plans, and a signal to stop that can be raised by a given number of calls. Each of the
last three may be missing; what is missing is not counted as called.
-/

set_option autoImplicit false

namespace CognitiveAgent.Simulation

structure Environment where
  rejected : List (String × String) := []
  unavailable : List (String × String) := []
  rewards : List (Option Number) := []

inductive Learner where
  -- Makes the choices in order, and then always the first one.
  | scripted (choices : List Nat)
  | random (source : Random)

inductive Preparation where
  | nothing
  | plan (steps : Plan)
  | refusal (reason : String)

structure World where
  mind : Mind := {}
  environment : Option Environment := some {}
  learner : Learner := .scripted []
  planner : Option (List Preparation) := none
  calls : Nat := 0
  -- The call during which the signal to stop is raised.
  stopAt : Option Nat := none
  stopped : Bool := false

namespace Environment

def perform (e : Environment) (a : UserAction) : Except EnvironmentFault Unit :=
  match e.rejected.lookup a.name, e.unavailable.lookup a.name with
  | some reason, _ => .error (.rejected a.display reason)
  | none, some reason => .error (.unavailable reason)
  | none, none => .ok ()

end Environment

namespace World

def displayTerms (ts : List Term) : String := (Term.list ts).display

def displayFocus : Option Term → String
  | some goal => goal.display
  | none => "-"

def displayCandidate (c : Candidate) : String :=
  toString c.rule ++ ": " ++ Combo.display c.instantiated ++ " " ++ c.substitution.display ++ " " ++
    displayFocus c.focus

/-- The text of a request that counts as a call. -/
def callText? (w : World) : Request → Option String
  | .evaluate c s => some ("evaluate " ++ c.display ++ " under " ++ s.display)
  | .insert t => some ("insert " ++ t.display)
  | .delete t => some ("delete " ++ t.display)
  | .adopt t => some ("adopt " ++ t.display)
  | .drop t => some ("drop " ++ t.display)
  | .hasGoals => none
  | .enterFocus module method goal =>
    some ("enter_focus " ++ module ++ " " ++ method.title ++ " " ++ displayFocus goal)
  | .exitFocus module => some ("exit_focus " ++ module)
  | .perform a => w.environment.map fun _ => "perform " ++ a.display
  | .reward => w.environment.map fun _ => "reward"
  | .choose module candidates =>
    match w.learner with
    | .scripted _ =>
      some ("act " ++ module ++ " beliefs " ++ displayTerms w.mind.beliefs ++ " from " ++
        " | ".intercalate (candidates.map displayCandidate))
    | .random _ => none
  | .learn module reward =>
    match w.learner with
    | .scripted _ =>
      some ("update " ++ module ++ " goals " ++ displayTerms w.mind.currentGoals ++ " reward " ++
        reward.positional)
    | .random _ => none
  | .plan module s =>
    w.planner.map fun _ =>
      "plan " ++ module.display ++ " goals " ++ displayTerms w.mind.currentGoals ++ " under " ++
        s.display
  | .stopSignal => none

/-- Counts a request that is a call, and raises the signal to stop where it is due. -/
def count (w : World) (request : Request) : World :=
  match w.callText? request with
  | none => w
  | some _ =>
    { w with calls := w.calls + 1, stopped := w.stopped || w.stopAt == some (w.calls + 1) }

def withMind {α : Type} (w : World) (change : α × Mind) : α × World :=
  (change.1, { w with mind := change.2 })

def perform (w : World) (a : UserAction) : Except EnvironmentFault Unit :=
  match w.environment with
  | some environment => environment.perform a
  | none => .ok ()

def reward (w : World) : Option Number × World :=
  match w.environment with
  | some environment =>
    match environment.rewards with
    | reward :: rest =>
        (reward, { w with environment := some { environment with rewards := rest } })
    | [] => (none, w)
  | none => (none, w)

def choose (w : World) (candidates : List Candidate) : Nat × World :=
  match w.learner with
  | .scripted (choice :: rest) => (choice, { w with learner := .scripted rest })
  | .scripted [] => (0, w)
  | .random source =>
    let (choice, source) := source.below .double candidates.length
    (choice, { w with learner := .random source })

def plan (w : World) (m : Module) : Except PlannerFault (Option Plan) × World :=
  match w.planner with
  | none | some [] => (.ok none, w)
  | some (preparation :: rest) =>
    let w := { w with planner := some rest }
    match preparation with
    | .nothing => (.ok none, w)
    | .plan steps => (.ok (some steps), w)
    | .refusal reason => (.error ⟨m.name, reason⟩, w)

def answer (w : World) : (request : Request) → request.Answer × World
  | .evaluate c s => (w.mind.evaluate c s, w)
  | .insert t => w.withMind (w.mind.insert t)
  | .delete t => w.withMind (w.mind.delete t)
  | .adopt t => w.withMind (w.mind.adopt t)
  | .drop t => w.withMind (w.mind.drop t)
  | .hasGoals => (!w.mind.currentGoals.isEmpty, w)
  | .enterFocus module method goal => w.withMind (w.mind.enterFocus module method goal)
  | .exitFocus module => w.withMind (w.mind.exitFocus module)
  | .perform a => (w.perform a, w)
  | .reward => w.reward
  | .choose _ candidates => w.choose candidates
  | .learn _ _ => ((), w)
  | .plan m _ => w.plan m
  | .stopSignal => (w.stopped, w)

def respond (request : Request) (w : World) : request.Answer × World :=
  (w.count request).answer request

end World

end CognitiveAgent.Simulation
