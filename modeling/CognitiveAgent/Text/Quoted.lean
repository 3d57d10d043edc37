import CognitiveAgent.Text.Unprintable

/-!
Quoted text: double quotes around the characters, with a backslash before quotes and
backslashes, short names for the common controls, and the code point in hexadecimal for every
other character that would not show.
-/

set_option autoImplicit false

namespace CognitiveAgent.Text

def escape (c : Char) : List Char :=
  match c with
  | '"' => ['\\', '"']
  | '\\' => ['\\', '\\']
  | '\n' => ['\\', 'n']
  | '\r' => ['\\', 'r']
  | '\t' => ['\\', 't']
  | '\x00' => ['\\', '0']
  | c =>
    if isUnprintable c then ['\\', 'u', '\x7b'] ++ Nat.toDigits 16 c.toNat ++ ['\x7d']
    else [c]

def quote (s : String) : String :=
  String.ofList ('"' :: s.toList.flatMap escape ++ ['"'])

def quoteAll (items : List String) : String :=
  "[" ++ ", ".intercalate (items.map quote) ++ "]"

end CognitiveAgent.Text
