import CognitiveAgent.Json.Basic
import CognitiveAgent.Number.Rounding

/-!
Rules for taking values out of JSON. A record is an object whose unknown members are skipped, or
an array of its fields in order. A variant is an object with a tag and a content, or an array of
the two. A keyword is a text, or an object with that one member and no value in it. A content that
stands before its tag is set aside until the tag is known, and what was set aside is taken freely:
variants may then be numbered, and an empty object is no value either.
-/

set_option autoImplicit false

namespace CognitiveAgent.Json

inductive Manner where
  | strict
  | free
deriving DecidableEq

mutual

/-- How many levels of arrays and objects a value has. -/
def height : Json → Nat
  | .null | .bool _ | .integer _ | .real _ | .string _ | .unusable => 0
  | .array items => heightAll items + 1
  | .object members => heightMembers members + 1

def heightAll : List Json → Nat
  | [] => 0
  | item :: items => max (height item) (heightAll items)

def heightMembers : List (String × Json) → Nat
  | [] => 0
  | (_, item) :: members => max (height item) (heightMembers members)

end

def string? : Json → Option String
  | .string value => some value
  | _ => none

def bool? : Json → Option Bool
  | .bool value => some value
  | _ => none

def natBelow? (limit : Nat) : Json → Option Nat
  | .integer value => if 0 ≤ value ∧ value < limit then some value.toNat else none
  | _ => none

def number? : Json → Option Number
  | .integer value => some (.ofInt value)
  | .real value => some value
  | _ => none

def list? {α : Type} (decode : Json → Option α) : Json → Option (List α)
  | .array items => items.mapM decode
  | _ => none

def nullable? {α : Type} (decode : Json → Option α) : Json → Option (Option α)
  | .null => some none
  | value => (decode value).map some

def isNothing (manner : Manner) : Json → Bool
  | .null => true
  | .object [] => manner = .free
  | _ => false

def keyword? (manner : Manner) : Json → Option String
  | .string name => some name
  | .object [(name, content)] => if content.isNothing manner then some name else none
  | _ => none

def oneOf? {α : Type} (all : List α) (keyword : α → String) (manner : Manner) (value : Json) :
    Option α := do
  let name ← keyword? manner value
  all.find? (keyword · == name)

/-- The name of one of the given variants. Taken freely, its position among them will do. -/
def tag? (tags : List String) (manner : Manner) : Json → Option String
  | .string name => some name
  | .integer position =>
    if manner = .free ∧ 0 ≤ position then tags[position.toNat]? else none
  | _ => none

def member? (members : List (String × Json)) (name : String) : Option (Option Json) :=
  match members.filter (·.1 == name) with
  | [] => some none
  | [(_, value)] => some (some value)
  | _ => none

def objectFields? (names : List String) : Json → Option (List (Option Json))
  | .object members => names.mapM (member? members)
  | _ => none

/-- The fields of a record. An array may leave out fields at its end. -/
def fields? (names : List String) : Json → Option (List (Option Json))
  | .array items =>
    if items.length ≤ names.length then
      some (items.map some ++ List.replicate (names.length - items.length) none)
    else none
  | value => objectFields? names value

def required? {α : Type} (decode : Json → Option α) (field : Option Json) : Option α :=
  field.bind decode

def optional? {α : Type} (default : α) (decode : Json → Option α) : Option Json → Option α
  | none => some default
  | some value => decode value

/-- A variant with its content, and how the content is to be taken. -/
structure Variant where
  tag : String
  manner : Manner
  content : Option Json

/-- One of the variants with the given tags. A content that is set aside must be usable in all
its parts. -/
def variant? (value : Json) (tags : List String) (manner : Manner) : Option Variant :=
  match value with
  | .array [tag, content] => do return ⟨← tag? tags manner tag, manner, some content⟩
  | .object members => do
    let tag ← required? (keyword? manner) (← member? members "t")
    match ← member? members "v" with
    | none => return ⟨tag, manner, none⟩
    | some content =>
      if (members.takeWhile (·.1 != "t")).any (·.1 == "v") then
        if content.isUsable then return ⟨tag, .free, some content⟩ else none
      else return ⟨tag, manner, some content⟩
  | _ => none

def ofOption {α : Type} (encode : α → Json) : Option α → Json
  | none => .null
  | some value => encode value

def ofList {α : Type} (encode : α → Json) (values : List α) : Json := .array (values.map encode)

def ofNat (value : Nat) : Json := .integer value

def tagged (tag : String) (content : Json) : Json := .object [("t", .string tag), ("v", content)]

end CognitiveAgent.Json
