import CognitiveAgent.Run.Acting
import CognitiveAgent.Run.Strategy.Choices
import CognitiveAgent.Run.Strategy.Passes
import CognitiveAgent.Run.Strategy.Plans

/-!
The call stack. One pop resumes the top frame with the outcome of the frame that has just left
the stack. A frame that needs work done goes back below its children; a frame that is done or has
failed leaves its outcome for the frame below.
-/

set_option autoImplicit false

namespace CognitiveAgent

namespace Setting

variable {σ ω : Type} (S : Setting σ ω)

def pursue (a : Activation) (strategy : StrategyState) (previous : Option RunResult) :
    Exec σ ω (ModuleFrame × Outcome) := do
  match strategy with
  | .passes state =>
    let (a, state, outcome) ← S.resumePasses a state previous
    return (⟨a, .passes state⟩, outcome)
  | .choices state =>
    let (a, state, outcome) ← S.resumeChoices a state previous
    return (⟨a, .choices state⟩, outcome)
  | .plans state =>
    let (a, state, outcome) ← S.resumePlans a state previous
    return (⟨a, .plans state⟩, outcome)

def resumeModule (f : ModuleFrame) (previous : Option RunResult) :
    Exec σ ω (ModuleFrame × Outcome) := do
  if f.activation.prepared then S.pursue f.activation f.strategy previous
  else
    match ← S.prepare f.activation with
    | (a, some failure) => return (⟨a, f.strategy⟩, .failed failure)
    | (a, none) => S.pursue a f.strategy previous

def resumeWith (f : Frame) (previous : Option RunResult) : Exec σ ω (Frame × Outcome) := do
  match f with
  | .module frame =>
    let (frame, outcome) ← S.resumeModule frame previous
    return (.module frame, outcome)
  | .rule frame =>
    let (frame, outcome) ← S.resumeRule frame previous
    return (.rule frame, outcome)
  | .combo frame =>
    let (frame, outcome) := frame.resume previous
    return (.combo frame, outcome)
  | .action frame =>
    let (frame, outcome) ← S.resumeAction frame previous
    return (.action frame, outcome)
  | .hole => return (.hole, .done (previous.getD .start))

/-- Resumes a frame. The failure of a child passes through it. -/
def resume (f : Frame) (previous : Option Completed) : Exec σ ω (Frame × Outcome) := do
  match previous with
  | none => S.resumeWith f none
  | some completed =>
    match completed.result with
    | .error failure => return (f, .failed failure)
    | .ok result => S.resumeWith f (some result)

end Setting

/-- Suspended frames, the top one first, and the outcome that waits for the top one. -/
structure CallStack where
  frames : List Frame := []
  previous : Option Completed := none

inductive Progress where
  | more
  | done
deriving DecidableEq

namespace CallStack

def empty : CallStack := {}

def isEmpty (stack : CallStack) : Bool := stack.frames.isEmpty

def depth (stack : CallStack) : Nat := stack.frames.length

def push (stack : CallStack) (f : Frame) : CallStack := { stack with frames := f :: stack.frames }

def kinds (stack : CallStack) : List FrameKind := stack.frames.reverse.map Frame.kind

def innermost? (stack : CallStack) : Option ModuleFrame :=
  stack.frames.findSome? fun
    | .module frame => some frame
    | _ => none

def result? (stack : CallStack) : Option (Except Failure RunResult) :=
  stack.previous.map (·.result)

def dropResult (stack : CallStack) : CallStack := { stack with previous := none }

def progress (stack : CallStack) : Progress := if stack.isEmpty then .done else .more

/-- The stack after the top frame, which stood on `rest`, was resumed. -/
def settle (rest : List Frame) (f : Frame) : Outcome → CallStack
  | .yield children => { frames := children.reverse ++ f :: rest }
  | .done result => { frames := rest, previous := some ⟨f.kind, .ok result⟩ }
  | .failed failure => { frames := rest, previous := some ⟨f.kind, .error failure⟩ }

end CallStack

namespace Setting

variable {σ ω : Type} (S : Setting σ ω)

def pop (stack : CallStack) : Exec σ ω CallStack := do
  match stack.frames with
  | [] => return stack
  | top :: rest =>
    let (frame, outcome) ← S.resume top stack.previous
    return .settle rest frame outcome

/-- Pops until a condition on the stack holds, at most `fuel` times. Tells whether it came to
hold. -/
def popUntil (holds : CallStack → Bool) : Nat → CallStack → Exec σ ω (CallStack × Bool)
  | 0, stack => return (stack, false)
  | fuel + 1, stack => do
    let stack ← S.pop stack
    if holds stack then return (stack, true) else popUntil holds fuel stack

def runStack (fuel : Nat) (stack : CallStack) : Exec σ ω (CallStack × Bool) :=
  S.popUntil (·.isEmpty) fuel stack

/-- Pops until the stack is empty, and takes the outcome of its bottom frame. -/
def runUntilDone (fuel : Nat) (stack : CallStack) :
    Exec σ ω (CallStack × Option (Except Failure RunResult)) := do
  match ← S.runStack fuel stack with
  | (stack, true) => return (stack.dropResult, some (stack.result?.getD (.ok .start)))
  | (stack, false) => return (stack, none)

/-- Pops until the frame that was on top has left the stack. -/
def stepOver (fuel : Nat) (stack : CallStack) : Exec σ ω (CallStack × Bool) :=
  S.popUntil (fun later => later.isEmpty || later.depth < stack.depth) fuel stack

end Setting

end CognitiveAgent
