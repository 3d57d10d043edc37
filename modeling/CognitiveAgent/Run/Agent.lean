import CognitiveAgent.Run.CallStack

/-!
Agents. An agent runs its init module, then its main module until that one exits, and then its
shutdown module, each if there is one and each on a stack of its own. A failure finishes it.
-/

set_option autoImplicit false

namespace CognitiveAgent

inductive Phase where
  | init
  | main
  | shutdown
  | finished
deriving DecidableEq, Inhabited

namespace Phase

def name : Phase → String
  | .init => "Init"
  | .main => "Main"
  | .shutdown => "Shutdown"
  | .finished => "Finished"

def next : Phase → Phase
  | .init => .main
  | .main => .shutdown
  | .shutdown | .finished => .finished

def remaining : Phase → List Phase
  | .init => [.init, .main, .shutdown]
  | .main => [.main, .shutdown]
  | .shutdown => [.shutdown]
  | .finished => []

end Phase

structure Agent where
  stack : CallStack := .empty
  phase : Phase := .init
  mainResult : Option RunResult := none

inductive AgentStep where
  | stepped
  | phaseDone (phase : Phase) (result : RunResult)
  | finished
  | failed (failure : Failure)

def Program.opening (p : Program) : Phase → Option ModuleFrame
  | .init => p.init.map fun m => .start m .empty none none
  | .main => p.main.map .startMain
  | .shutdown => p.shutdown.map fun m => .start m .empty none none
  | .finished => none

namespace Agent

def start : Agent := {}

/-- Puts the next phase's frame on an empty stack. Without one the agent is finished. -/
def enterPhase (agent : Agent) (program : Program) : Agent × Bool :=
  let opened := agent.phase.remaining.findSome? fun phase =>
    (program.opening phase).map fun frame => (phase, frame)
  match opened with
  | some (phase, frame) => ({ agent with phase, stack := agent.stack.push (.module frame) }, true)
  | none => ({ agent with phase := .finished }, false)

def closePhase (agent : Agent) : Agent × AgentStep :=
  match agent.stack.result?.getD (.ok .start) with
  | .ok result =>
    ({ stack := agent.stack.dropResult, phase := agent.phase.next,
       mainResult := if agent.phase = .main then some result else agent.mainResult },
      .phaseDone agent.phase result)
  | .error failure => ({ agent with stack := .empty, phase := .finished }, .failed failure)

end Agent

namespace Setting

variable {σ ω : Type} (S : Setting σ ω)

def advance (agent : Agent) : Exec σ ω (Agent × AgentStep) := do
  let stack ← S.pop agent.stack
  let agent := { agent with stack }
  if stack.isEmpty then return agent.closePhase else return (agent, .stepped)

def step (agent : Agent) : Exec σ ω (Agent × AgentStep) := do
  if agent.stack.isEmpty then
    match agent.enterPhase S.program with
    | (agent, true) => S.advance agent
    | (agent, false) => return (agent, .finished)
  else S.advance agent

/-- Steps until the agent is finished or fails, at most `fuel` times. -/
def runAgent : Nat → Agent → Exec σ ω (Agent × Option (Except Failure RunResult))
  | 0, agent => return (agent, none)
  | fuel + 1, agent => do
    match ← S.step agent with
    | (agent, .finished) => return (agent, some (.ok (agent.mainResult.getD .start)))
    | (agent, .failed failure) => return (agent, some (.error failure))
    | (agent, .stepped) | (agent, .phaseDone ..) => runAgent fuel agent

end Setting

end CognitiveAgent
