import CognitiveAgent.Program.Definition
import CognitiveAgent.Run.Request
import CognitiveAgent.Run.Result

/-!
Frames of the call stack. A frame is a piece of work that can be suspended: a module, one of its
rules, the combo of a fired rule, or one action of a combo. Frames nest in this order and start
again with the module that an action calls. A hole stands for a level that is passed over, so
that depth keeps its meaning.
-/

set_option autoImplicit false

namespace CognitiveAgent

inductive FrameKind where
  | module
  | rule
  | combo
  | action
  | hole
deriving DecidableEq, Inhabited

namespace FrameKind

def all : List FrameKind := [.module, .rule, .combo, .action, .hole]

def name : FrameKind → String
  | .module => "Module"
  | .rule => "Rule"
  | .combo => "ActionCombo"
  | .action => "Action"
  | .hole => "Hole"

def letter : FrameKind → Char
  | .module => 'M'
  | .rule => 'R'
  | .combo => 'C'
  | .action => 'A'
  | .hole => 'H'

def child : FrameKind → Option FrameKind
  | .module => some .rule
  | .rule => some .combo
  | .combo => some .action
  | .action => some .module
  | .hole => none

def toJson (k : FrameKind) : Json := .string k.name

def ofJson? : Json → Option FrameKind := Json.oneOf? all name .strict

end FrameKind

structure ActionFrame where
  action : Action
  substitution : Substitution
  focus : Option Term
  order : RuleOrder
  -- Set once the action has called a module, to whether that module is anonymous.
  called : Option Bool := none

structure ComboFrame where
  combo : List Action
  substitution : Substitution
  focus : Option Term
  order : RuleOrder
  -- The actions still to run, once the first one has started.
  pending : Option (List Action) := none
  lastWasCall : Bool := false
  result : RunResult := .start

structure Instantiation where
  substitution : Substitution
  focus : Option Term

/-- A rule of a module, given with its position there. -/
structure RuleFrame where
  rule : Rule
  index : Nat
  substitution : Substitution
  order : RuleOrder
  pending : Option (List Instantiation) := none
  result : RunResult := .start

/-- What all strategies share of a module being executed. -/
structure Activation where
  module : Module
  substitution : Substitution
  inherited : Option RuleOrder
  order : RuleOrder
  focus : Option Term
  isMain : Bool := false
  prepared : Bool := false
  result : RunResult := .start
  passPerformed : Bool := false

inductive PassAwaiting where
  | nothing
  | rule
  | eventPass
deriving DecidableEq, Inhabited

structure PassState where
  queue : List (Rule × Nat) := []
  isOpen : Bool := false
  awaiting : PassAwaiting := .nothing

inductive ChoiceAwaiting where
  | nothing
  | combo
  -- Whether the event pass follows a choice.
  | eventPass (chose : Bool)
deriving DecidableEq, Inhabited

structure ChoiceState where
  awaiting : ChoiceAwaiting := .nothing

structure PlanState where
  plan : Option Plan := none
  plannedBefore : Bool := false
  awaitingStep : Bool := false

inductive StrategyState where
  | passes (state : PassState)
  | choices (state : ChoiceState)
  | plans (state : PlanState)

structure ModuleFrame where
  activation : Activation
  strategy : StrategyState

inductive Frame where
  | module (frame : ModuleFrame)
  | rule (frame : RuleFrame)
  | combo (frame : ComboFrame)
  | action (frame : ActionFrame)
  | hole

def Frame.kind : Frame → FrameKind
  | .module _ => .module
  | .rule _ => .rule
  | .combo _ => .combo
  | .action _ => .action
  | .hole => .hole

/-- What comes of resuming a frame. -/
inductive Outcome where
  -- The frame waits for the children, the last of which runs first.
  | yield (children : List Frame)
  | done (result : RunResult)
  | failed (failure : Failure)

structure Completed where
  kind : FrameKind
  result : Except Failure RunResult

def StrategyState.start : Strategy → StrategyState
  | .linear => .passes {}
  | .adaptive => .choices {}
  | .planning => .plans {}

namespace ModuleFrame

def start (module : Module) (substitution : Substitution) (inherited : Option RuleOrder)
    (focus : Option Term) : ModuleFrame :=
  { activation := { module, substitution, inherited, order := inherited.getD .linear, focus }
    strategy := .start module.strategy }

def startMain (module : Module) : ModuleFrame :=
  let frame := start module .empty none none
  { frame with activation := { frame.activation with isMain := true } }

end ModuleFrame

end CognitiveAgent
