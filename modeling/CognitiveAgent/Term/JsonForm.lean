import CognitiveAgent.Json.Decoding
import CognitiveAgent.Term.Substitution

/-!
The JSON form of terms and substitutions.
-/

set_option autoImplicit false

namespace CognitiveAgent

namespace Term

mutual

def toJson : Term → Json
  | .var name => .tagged "Var" (.string name)
  | .atom name => .tagged "Atom" (.string name)
  | .number value => .tagged "Num" (.real value)
  | .string value => .tagged "Str" (.string value)
  | .compound functor args =>
    .tagged "Compound" (.object [("functor", .string functor), ("args", .array (toJsonAll args))])
  | .list items => .tagged "List" (.array (toJsonAll items))

def toJsonAll : List Term → List Json
  | [] => []
  | t :: ts => toJson t :: toJsonAll ts

end

def tags : List String := ["Var", "Atom", "Num", "Str", "Compound", "List"]

/-- Decodes a term of at most `fuel` levels. The content of a compound is an object only. -/
def decode? : Nat → Json.Manner → Json → Option Term
  | 0, _, _ => none
  | fuel + 1, manner, value => do
    match ← value.variant? tags manner with
    | ⟨"Var", _, some content⟩ => return .var (← content.string?)
    | ⟨"Atom", _, some content⟩ => return .atom (← content.string?)
    | ⟨"Num", _, some content⟩ => return .number (← content.number?)
    | ⟨"Str", _, some content⟩ => return .string (← content.string?)
    | ⟨"Compound", manner, some content⟩ =>
      match ← content.objectFields? ["functor", "args"] with
      | [functor, args] =>
        return .compound (← Json.required? Json.string? functor)
          (← Json.required? (Json.list? (decode? fuel manner)) args)
      | _ => none
    | ⟨"List", manner, some content⟩ => return .list (← content.list? (decode? fuel manner))
    | _ => none

def read? (manner : Json.Manner) (value : Json) : Option Term :=
  decode? (value.height + 1) manner value

def ofJson? : Json → Option Term := read? .strict

end Term

namespace Substitution

def toJson (s : Substitution) : Json :=
  .object (s.bindings.map fun binding => (binding.1, binding.2.toJson))

/-- The last binding of a variable counts. -/
def ofJson? : Json → Option Substitution
  | .object members => do
    let bindings ← members.mapM fun binding => do return (binding.1, ← Term.ofJson? binding.2)
    return ofList bindings
  | _ => none

end Substitution

end CognitiveAgent
