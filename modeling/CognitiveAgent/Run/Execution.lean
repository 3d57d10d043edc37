import CognitiveAgent.Run.Agent
import CognitiveAgent.Run.Attempt

/-!
Running stacks and agents. These are the runs as they take place: one that comes to a resumption
that never returns has no result.
-/

set_option autoImplicit false

namespace CognitiveAgent.Setting

variable {σ ω : Type} (S : Setting σ ω)

def pop? (stack : CallStack) : Attempt σ ω CallStack := do
  match stack.frames with
  | [] => return stack
  | top :: rest =>
    let (frame, outcome) ← S.resume? top stack.previous
    return .settle rest frame outcome

def popUntil? (holds : CallStack → Bool) : Nat → CallStack → Attempt σ ω (CallStack × Bool)
  | 0, stack => return (stack, false)
  | fuel + 1, stack => do
    let stack ← S.pop? stack
    if holds stack then return (stack, true) else popUntil? holds fuel stack

def runUntilDone? (fuel : Nat) (stack : CallStack) :
    Attempt σ ω (CallStack × Option (Except Failure RunResult)) := do
  match ← S.popUntil? (·.isEmpty) fuel stack with
  | (stack, true) => return (stack.dropResult, some (stack.result?.getD (.ok .start)))
  | (stack, false) => return (stack, none)

def stepOver? (fuel : Nat) (stack : CallStack) : Attempt σ ω (CallStack × Bool) :=
  S.popUntil? (fun later => later.isEmpty || later.depth < stack.depth) fuel stack

def advance? (agent : Agent) : Attempt σ ω (Agent × AgentStep) := do
  let stack ← S.pop? agent.stack
  let agent := { agent with stack }
  if stack.isEmpty then return agent.closePhase else return (agent, .stepped)

def step? (agent : Agent) : Attempt σ ω (Agent × AgentStep) := do
  if agent.stack.isEmpty then
    match agent.enterPhase S.program with
    | (agent, true) => S.advance? agent
    | (agent, false) => return (agent, .finished)
  else S.advance? agent

def runAgent? : Nat → Agent → Attempt σ ω (Agent × Option (Except Failure RunResult))
  | 0, agent => return (agent, none)
  | fuel + 1, agent => do
    match ← S.step? agent with
    | (agent, .finished) => return (agent, some (.ok (agent.mainResult.getD .start)))
    | (agent, .failed failure) => return (agent, some (.error failure))
    | (agent, .stepped) | (agent, .phaseDone ..) => runAgent? fuel agent

end CognitiveAgent.Setting
