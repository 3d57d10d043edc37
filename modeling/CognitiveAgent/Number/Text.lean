import CognitiveAgent.Number.Rounding
import CognitiveAgent.Text.Digits

/-!
Numbers as plain text: decimals with an optional exponent, and the names of the infinities and
of the value that is no number.
-/

set_option autoImplicit false

namespace CognitiveAgent.Number

open Text

def exponent? : List Char → Option Int
  | [] => some 0
  | c :: rest => if c == 'e' || c == 'E' then int? (String.ofList rest) else none

/-- A decimal has a digit before or behind its point. -/
def unsigned? (negative : Bool) (cs : List Char) : Option Number := do
  let (whole, rest) := readDigits cs
  let (places, rest) :=
    match rest with
    | '.' :: rest => readDigits rest
    | rest => ([], rest)
  if whole.isEmpty && places.isEmpty then none
  else
    let exponent ← exponent? rest
    return ofDecimal negative (natOfDigits (whole ++ places)) (exponent - places.length)

def ofText? (text : String) : Option Number :=
  let (negative, rest) := readSign text.toList
  match (String.ofList rest).toLower with
  | "nan" => some nan
  | "inf" | "infinity" => some (infinity negative)
  | _ => unsigned? negative rest

end CognitiveAgent.Number
