import CognitiveAgent.Run.Agent
import CognitiveAgent.Simulation.World

/-!
Traces of runs in a simulated world: the calls, the reported events and the logged terms in the
order in which they happen.
-/

set_option autoImplicit false

namespace CognitiveAgent.Simulation

inductive TraceEntry where
  | call (text : String)
  | event (event : Event)
  | logged (text : String)

/-- The latest entry comes first. -/
abbrev Trace := List TraceEntry

namespace Trace

/-- Records an occurrence; events only if they are wanted. -/
def observe (events : Bool) (w : World) (occurrence : Occurrence) (trace : Trace) : Trace :=
  match occurrence with
  | .exchange request _ =>
    match w.callText? request with
    | some text => .call text :: trace
    | none => trace
  | .event event => if events then .event event :: trace else trace
  | .logged term => .logged term.display :: trace

end Trace

def setting (program : Program) (defaultOrder : RuleOrder) (events : Bool) : Setting World Trace :=
  { program, defaultOrder, respond := World.respond, observe := Trace.observe events }

def situation (world : World) (random : Random) : Situation World Trace :=
  { world, record := [], random, entered := [] }

end CognitiveAgent.Simulation
