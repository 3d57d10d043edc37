import CognitiveAgent.Number.Basic

/-!
JSON values. Whole numbers of at most 64 bits are kept apart from all other numbers, objects keep
the order and the repetitions of their members, and a value that is well written but cannot be
represented can still be skipped.
-/

set_option autoImplicit false

namespace CognitiveAgent

inductive Json where
  | null
  | bool (value : Bool)
  | integer (value : Int)
  | real (value : Number)
  | string (value : String)
  | array (items : List Json)
  | object (members : List (String × Json))
  -- A number out of range, a text with half a surrogate pair, or a value nested too deeply.
  | unusable
deriving Inhabited

namespace Json

mutual

/-- Whether the value can be represented in all its parts. -/
def isUsable : Json → Bool
  | .null | .bool _ | .integer _ | .real _ | .string _ => true
  | .array items => allUsable items
  | .object members => allMembersUsable members
  | .unusable => false

def allUsable : List Json → Bool
  | [] => true
  | item :: items => isUsable item && allUsable items

def allMembersUsable : List (String × Json) → Bool
  | [] => true
  | (_, item) :: members => isUsable item && allMembersUsable members

end

end Json

end CognitiveAgent
