import CognitiveAgent.Program.JsonForm

/-!
The configuration of an interpreter.
-/

set_option autoImplicit false

namespace CognitiveAgent

structure Configuration where
  defaultOrder : RuleOrder := .linear
  seed : Option UInt64 := none
  logFilter : String := "info"
deriving Inhabited

namespace Configuration

def toJson (c : Configuration) : Json :=
  .object [("default_rule_order", c.defaultOrder.toJson),
    ("rng_seed", .ofOption (fun seed => .ofNat seed.toNat) c.seed),
    ("log_filter", .string c.logFilter)]

def seed? (value : Json) : Option UInt64 := (value.natBelow? (Nat.pow 2 64)).map UInt64.ofNat

def ofJson? (value : Json) : Option Configuration := do
  match ← value.fields? ["default_rule_order", "rng_seed", "log_filter"] with
  | [order, seed, filter] =>
    return { defaultOrder := ← Json.optional? .linear RuleOrder.ofJson? order,
             seed := ← Json.optional? none (Json.nullable? seed?) seed,
             logFilter := ← Json.optional? "info" Json.string? filter }
  | _ => none

inductive Error where
  | unreadable
  | invalid
deriving DecidableEq

def Error.message : Error → String
  | .unreadable => "Failed to read configuration sources"
  | .invalid => "Invalid configuration"

end Configuration

end CognitiveAgent
