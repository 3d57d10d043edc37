import CognitiveAgent.Program.Definition
import CognitiveAgent.Random.Stream
import CognitiveAgent.Run.Event
import CognitiveAgent.Run.Request

/-!
The setting of a run, which stays the same, and its situation, which changes. An interpreter
touches the situation only by the few steps defined here: an exchange with the world, a report,
a random shuffle, and entering or leaving a module.
-/

set_option autoImplicit false

namespace CognitiveAgent

/-- Something that an observer of a run sees. -/
inductive Occurrence where
  | exchange (request : Request) (answer : request.Answer)
  | event (event : Event)
  | logged (term : Term)

/-- What is fixed during a run: the program, how the world answers requests, and what an observer
makes of each occurrence, given the world just before it. -/
structure Setting (σ ω : Type) where
  program : Program
  defaultOrder : RuleOrder
  respond : (request : Request) → σ → request.Answer × σ
  observe : σ → Occurrence → ω → ω

structure Situation (σ ω : Type) where
  world : σ
  record : ω
  random : Random
  -- The names of the modules that have been entered and not left, the latest last.
  entered : List String

abbrev Exec (σ ω α : Type) := StateM (Situation σ ω) α

namespace Setting

variable {σ ω : Type} (S : Setting σ ω)

def ask (request : Request) : Exec σ ω request.Answer := fun situation =>
  let (answer, world) := S.respond request situation.world
  let record := S.observe situation.world (.exchange request answer) situation.record
  (answer, { situation with world, record })

def note (occurrence : Occurrence) : Exec σ ω Unit := fun situation =>
  ((), { situation with record := S.observe situation.world occurrence situation.record })

def emit (channel : Channel) (subject : String) (source : Option Location) (template : String)
    (arguments : List String) : Exec σ ω Unit :=
  S.note (.event { channel, subject, source, template, arguments })

def log (term : Term) : Exec σ ω Unit := S.note (.logged term)

end Setting

namespace Situation

variable {σ ω : Type}

def shuffle {α : Type} (items : List α) : Exec σ ω (List α) := fun situation =>
  let (shuffled, random) := situation.random.shuffle items
  (shuffled, { situation with random })

def enter (name : String) : Exec σ ω Unit := fun situation =>
  ((), { situation with entered := situation.entered ++ [name] })

/-- Forgets the latest entry of the name. -/
def leave (name : String) : Exec σ ω Unit := fun situation =>
  ((), { situation with entered := (situation.entered.reverse.erase name).reverse })

end Situation

end CognitiveAgent
