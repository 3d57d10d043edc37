import CognitiveAgent.Json.Basic
import CognitiveAgent.Number.Decimal

/-!
Writing JSON text on one line, without blanks. Numbers that JSON cannot express become null.
-/

set_option autoImplicit false

namespace CognitiveAgent.Json

def hexChar (n : Nat) : Char := (Nat.digitChar (n % 16))

def escapeChar (c : Char) : List Char :=
  match c with
  | '"' => ['\\', '"']
  | '\\' => ['\\', '\\']
  | '\n' => ['\\', 'n']
  | '\r' => ['\\', 'r']
  | '\t' => ['\\', 't']
  | c =>
    if c.toNat < 0x20 then ['\\', 'u', '0', '0', hexChar (c.toNat / 16), hexChar c.toNat] else [c]

def writeText (s : String) : String := String.ofList ('"' :: s.toList.flatMap escapeChar ++ ['"'])

/-- A number with its fraction, so that it is not read back as a whole one. -/
def writeNumber (x : Number) : String :=
  if x.isFinite then
    let written := x.positional
    if written.contains '.' then written else written ++ ".0"
  else "null"

mutual

def write : Json → String
  | .null => "null"
  | .bool true => "true"
  | .bool false => "false"
  | .integer value => toString value
  | .real value => writeNumber value
  | .string value => writeText value
  | .array items => "[" ++ ",".intercalate (writeItems items) ++ "]"
  | .object members => "\x7b" ++ ",".intercalate (writeMembers members) ++ "\x7d"
  | .unusable => "null"

def writeItems : List Json → List String
  | [] => []
  | item :: items => write item :: writeItems items

def writeMembers : List (String × Json) → List String
  | [] => []
  | (name, item) :: members => (writeText name ++ ":" ++ write item) :: writeMembers members

end

end CognitiveAgent.Json
