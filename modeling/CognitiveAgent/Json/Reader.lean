import CognitiveAgent.Json.Basic
import CognitiveAgent.Number.Arithmetic
import CognitiveAgent.Text.Digits

/-!
Reading JSON text. The reader is strict: no comments, no comma before a closing bracket, no
number with a leading zero or a plus sign, no raw control character in a text. Only blanks may
follow the value. What is well written but out of range is read as an unusable value.
-/

set_option autoImplicit false

namespace CognitiveAgent.Json

open Text

def depthLimit : Nat := 127

def isBlank (c : Char) : Bool := c == ' ' || c == '\n' || c == '\t' || c == '\r'

def skipBlanks (cs : List Char) : List Char := cs.dropWhile isBlank

/-- The digits before the point: a zero stands alone. -/
def readWhole (cs : List Char) : Option (List Char × List Char) :=
  match readDigits cs with
  | ([], _) => none
  | ('0' :: _ :: _, _) => none
  | (digits, rest) => some (digits, rest)

def readFraction (cs : List Char) : Option (Option (List Char) × List Char) :=
  match cs with
  | '.' :: rest =>
    match readDigits rest with
    | ([], _) => none
    | (digits, rest) => some (some digits, rest)
  | _ => some (none, cs)

def readExponentDigits (negative : Bool) (cs : List Char) : Option (Option Int × List Char) :=
  match readDigits cs with
  | ([], _) => none
  | (digits, rest) =>
    let value : Int := natOfDigits digits
    some (some (if negative then -value else value), rest)

def readExponent (cs : List Char) : Option (Option Int × List Char) :=
  match cs with
  | 'e' :: '-' :: rest | 'E' :: '-' :: rest => readExponentDigits true rest
  | 'e' :: '+' :: rest | 'E' :: '+' :: rest => readExponentDigits false rest
  | 'e' :: rest | 'E' :: rest => readExponentDigits false rest
  | _ => some (none, cs)

/-- Appends digits to a significand for as long as it fits into 64 bits. Gives the significand
with the number of digits that are left. -/
def appendFitting : Nat → List Char → Nat × Nat
  | significand, [] => (significand, 0)
  | significand, c :: cs =>
    let next := 10 * significand + natOfDigits [c]
    if next < Nat.pow 2 64 then appendFitting next cs else (significand, cs.length + 1)

/-- The number that is written with the given digits. Whole digits that do not fit into the
significand count as zeros, and such places as nothing. -/
def ofDigits (negative : Bool) (whole places : List Char) (exponent : Int) : Json :=
  let (significand, zeros) := appendFitting 0 whole
  let (significand, dropped) := appendFitting significand places
  let x := Number.scaled significand (exponent + zeros - (places.length - dropped))
  if x.isFinite then .real (if negative then x.negated else x) else .unusable

/-- Whole numbers that fit into 64 bits stay whole. The negative zero has no whole form. -/
def ofWhole (negative : Bool) (digits : List Char) : Json :=
  let value := natOfDigits digits
  if negative then
    if value = 0 ∨ Nat.pow 2 63 < value then ofDigits true digits [] 0 else .integer (-value)
  else if value < Nat.pow 2 64 then .integer value
  else ofDigits false digits [] 0

def readNumber (negative : Bool) (cs : List Char) : Option (Json × List Char) := do
  let (whole, cs) ← readWhole cs
  let (fraction, cs) ← readFraction cs
  let (exponent, cs) ← readExponent cs
  match fraction, exponent with
  | none, none => return (ofWhole negative whole, cs)
  | _, _ => return (ofDigits negative whole (fraction.getD []) (exponent.getD 0), cs)

def shortEscape? : Char → Option Char
  | '"' => some '"'
  | '\\' => some '\\'
  | '/' => some '/'
  | 'b' => some '\x08'
  | 'f' => some '\x0c'
  | 'n' => some '\n'
  | 'r' => some '\r'
  | 't' => some '\t'
  | _ => none

def isHighSurrogate (code : Nat) : Bool := 0xd800 ≤ code && code < 0xdc00

def isLowSurrogate (code : Nat) : Bool := 0xdc00 ≤ code && code < 0xe000

/-- A text being read: its characters in reverse, or nothing once half a surrogate pair was seen. -/
abbrev Partial := Option (List Char)

def Partial.push (read : Partial) (c : Char) : Partial := read.map (c :: ·)

/-- Reads a text from behind its opening quote. The outer option tells whether it is well
written, the inner one whether it can be represented. -/
def readText : Partial → List Char → Option (Option String × List Char)
  | _, [] => none
  | read, '"' :: rest => some (read.map fun reversed => String.ofList reversed.reverse, rest)
  | read, '\\' :: 'u' :: a :: b :: c :: d :: '\\' :: 'u' :: e :: f :: g :: h :: rest =>
    match nat? 16 [a, b, c, d], nat? 16 [e, f, g, h] with
    | some first, some second =>
      if isHighSurrogate first && isLowSurrogate second then
        let code := 0x10000 + (first - 0xd800) * 0x400 + (second - 0xdc00)
        readText (read.push (Char.ofNat code)) rest
      else if isHighSurrogate first || isLowSurrogate first then
        readText none ('\\' :: 'u' :: e :: f :: g :: h :: rest)
      else readText (read.push (Char.ofNat first)) ('\\' :: 'u' :: e :: f :: g :: h :: rest)
    | _, _ => none
  | read, '\\' :: 'u' :: a :: b :: c :: d :: rest =>
    match nat? 16 [a, b, c, d] with
    | some code =>
      if isHighSurrogate code || isLowSurrogate code then readText none rest
      else readText (read.push (Char.ofNat code)) rest
    | none => none
  | read, '\\' :: c :: rest =>
    match shortEscape? c with
    | some escaped => readText (read.push escaped) rest
    | none => none
  | read, c :: rest => if c.toNat < 0x20 then none else readText (read.push c) rest
termination_by _ cs => cs.length

abbrev Members := Option (List (String × Json))

/-- The value itself, or an unusable one where it stands too deep. -/
def atDepth (depth : Nat) (value : Json) : Json := if depth < depthLimit then value else .unusable

mutual

/-- Reads a value inside of `depth` arrays and objects. -/
def readValue : Nat → Nat → List Char → Option (Json × List Char)
  | 0, _, _ => none
  | fuel + 1, depth, cs =>
    match skipBlanks cs with
    | 'n' :: 'u' :: 'l' :: 'l' :: rest => some (.null, rest)
    | 't' :: 'r' :: 'u' :: 'e' :: rest => some (.bool true, rest)
    | 'f' :: 'a' :: 'l' :: 's' :: 'e' :: rest => some (.bool false, rest)
    | '"' :: rest =>
      match readText (some []) rest with
      | some (some text, rest) => some (.string text, rest)
      | some (none, rest) => some (.unusable, rest)
      | none => none
    | '[' :: rest =>
      match skipBlanks rest with
      | ']' :: rest => some (atDepth depth (.array []), rest)
      | rest => readItems fuel depth [] rest
    | '\x7b' :: rest =>
      match skipBlanks rest with
      | '\x7d' :: rest => some (atDepth depth (.object []), rest)
      | rest => readMembers fuel depth (some []) rest
    | '-' :: rest => readNumber true rest
    | rest => readNumber false rest

/-- Reads the items of an array from the next one on; `read` holds the earlier ones in reverse. -/
def readItems : Nat → Nat → List Json → List Char → Option (Json × List Char)
  | 0, _, _, _ => none
  | fuel + 1, depth, read, cs =>
    match readValue fuel (depth + 1) cs with
    | none => none
    | some (item, rest) =>
      match skipBlanks rest with
      | ',' :: rest => readItems fuel depth (item :: read) rest
      | ']' :: rest => some (atDepth depth (.array (item :: read).reverse), rest)
      | _ => none

def readMembers : Nat → Nat → Members → List Char → Option (Json × List Char)
  | 0, _, _, _ => none
  | fuel + 1, depth, read, cs =>
    match skipBlanks cs with
    | '"' :: rest =>
      match readText (some []) rest with
      | none => none
      | some (name, rest) =>
        match skipBlanks rest with
        | ':' :: rest =>
          match readValue fuel (depth + 1) rest with
          | none => none
          | some (item, rest) =>
            let extended : Members := do return (← name, item) :: (← read)
            match skipBlanks rest with
            | ',' :: rest => readMembers fuel depth extended rest
            | '\x7d' :: rest =>
              match extended with
              | some members => some (atDepth depth (.object members.reverse), rest)
              | none => some (.unusable, rest)
            | _ => none
        | _ => none
    | _ => none

end

/-- Reads a whole text. Every step of the reader either takes a character or goes on to one that
does, so twice the length is fuel enough. -/
def parse? (text : String) : Option Json :=
  let cs := text.toList
  match readValue (2 * cs.length + 2) 0 cs with
  | some (value, rest) => if (skipBlanks rest).isEmpty then some value else none
  | none => none

end CognitiveAgent.Json
