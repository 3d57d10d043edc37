import CognitiveAgent.Text.Digits
import CognitiveAgent.Toml.Scalar

/-!
Settings in layers, the later of which are the stronger ones. A layer gives values to keys. A key
may be a path into the value of a name: `a.b` is the entry `b` of the table `a`, and `a[0]` is an
item of the array `a`. All names count in lower case. A table goes into the one that is there, and
every other value takes the place of what is there.
-/

set_option autoImplicit false

namespace CognitiveAgent.Configuration

open Toml (Entries setEntry)

/-! ## Paths -/

inductive Step where
  | entry (name : String)
  | item
deriving DecidableEq

structure Path where
  name : String
  steps : List Step
deriving DecidableEq

/-- Names on a path may hold spaces, and also begin and end with them. -/
def isNameChar (c : Char) : Bool := c.isAlphanum || c == '_' || c == '-' || c == ' '

def readName (cs : List Char) : Option (String × List Char) :=
  match cs.takeWhile isNameChar with
  | [] => none
  | name => some (String.ofList name, cs.dropWhile isNameChar)

/-- Skips a position with its closing bracket. A position is an integer of 64 bits. -/
def skipPosition (cs : List Char) : Option (List Char) :=
  let cs := Toml.skipBlanks cs
  let (negative, cs) :=
    match cs with
    | '-' :: rest => (true, rest)
    | _ => (false, cs)
  match Text.readDigits cs with
  | ([], _) => none
  | (digits, rest) =>
    let limit := if negative then Nat.pow 2 63 + 1 else Nat.pow 2 63
    match Toml.skipBlanks rest with
    | ']' :: rest => if Text.natOfDigits digits < limit then some rest else none
    | _ => none

/-- All steps up to the end. Every step takes a character, so the length is fuel enough. -/
def readSteps : Nat → List Char → Option (List Step)
  | _, [] => some []
  | 0, _ => none
  | fuel + 1, '.' :: rest => do
    let (name, rest) ← readName rest
    return .entry name :: (← readSteps fuel rest)
  | fuel + 1, '[' :: rest => do return .item :: (← readSteps fuel (← skipPosition rest))
  | _, _ => none

/-- A key that is not written as a path is a name as it stands. -/
def Path.ofKey (key : String) : Path :=
  let read := do
    let (name, rest) ← readName key.toList
    return { name, steps := ← readSteps rest.length rest : Path }
  read.getD ⟨key, []⟩

/-! ## Layers -/

def entriesAt (settings : Entries) (name : String) : Entries :=
  match settings.lookup name with
  | some (.table _ entries) => entries
  | _ => []

mutual

/-- Gives a value to a name. A table without entries leaves what is there as it is. -/
def put : Toml → Entries → String → Entries
  | .table _ [], settings, name =>
    if (settings.lookup name.toLower).isSome then settings
    else setEntry name.toLower (.table .headed []) settings
  | .table _ (entry :: entries), settings, name =>
    let merged := putAll (entry :: entries) (entriesAt settings name.toLower)
    setEntry name.toLower (.table .headed merged) settings
  | value, settings, name => setEntry name.toLower value settings

def putAll : Entries → Entries → Entries
  | [], settings => settings
  | (name, value) :: entries, settings => putAll entries (put value settings name)

end

/-- Gives a value to the place where steps behind a name lead to. What is no table on the way
makes room for one, and items are not told apart. -/
def putBehind (value : Toml) : List Step → Entries → String → Entries
  | [], settings, name => put value settings name
  | .item :: _, settings, name => setEntry name.toLower (.array []) settings
  | .entry inner :: steps, settings, name =>
    let entries := putBehind value steps (entriesAt settings name.toLower) inner
    setEntry name.toLower (.table .headed entries) settings

def addLayer (settings layer : Entries) : Entries :=
  layer.foldl (fun settings (key, value) =>
    let path := Path.ofKey key
    putBehind value path.steps settings path.name) settings

end CognitiveAgent.Configuration
