import CognitiveAgent.Program.Module

/-!
Short forms for writing programs by hand: actions without a source, rules of each kind, and
modules with every policy at its default.
-/

set_option autoImplicit false

namespace CognitiveAgent

namespace Action

def perform (name : String) (params : List Term) : Action := .user { name, params }

def guarded (name : String) (params : List Term) (pre : Condition) : Action :=
  .user { name, params, pre }

def callNamed (name : String) (params : List Term) : Action := .call (.named name) params none

def nested (body : Module) : Action := .call (.inPlace body) [] none

def insert (belief : Term) : Action := .mental (.insert belief)

def delete (belief : Term) : Action := .mental (.delete belief)

def adopt (goal : Term) : Action := .mental (.adopt goal)

def drop (goal : Term) : Action := .mental (.drop goal)

def exitModule : Action := .mental .exit

end Action

namespace Rule

def ofKind (kind : RuleKind) (condition : Condition) (combo : List Action) : Rule :=
  { kind, condition, combo, source := none }

def located (r : Rule) (source : Location) : Rule := { r with source := some source }

end Rule

namespace Module

def ofName (name : String) : Module :=
  { name, parameters := [], rules := [], order := none, exit := .always, focus := .none,
    anonymous := false, beliefs := [], goals := [], strategy := .linear, source := none }

/-- A module to be written out in place, sharing the bindings of the rule that calls it. -/
def unnamed (name : String) (rules : List Rule) : Module :=
  { ofName name with anonymous := true, rules }

instance : Inhabited Module := ⟨ofName ""⟩

end Module

end CognitiveAgent
