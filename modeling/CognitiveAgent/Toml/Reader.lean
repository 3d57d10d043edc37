import CognitiveAgent.Toml.Scalar

/-!
Reading a TOML document, line by line.
-/

set_option autoImplicit false

namespace CognitiveAgent.Toml

def depthLimit : Nat := 80

def isKeyChar (c : Char) : Bool := c.isAlphanum || c == '_' || c == '-'

def readKeyPart (cs : List Char) : Option (String × List Char) :=
  match cs with
  | '"' :: rest => readBasic (rest.length + 1) [] rest
  | '\'' :: rest => readLiteral [] rest
  | _ =>
    match cs.takeWhile isKeyChar with
    | [] => none
    | part => some (String.ofList part, cs.dropWhile isKeyChar)

/-- A key is parts with points between them, `limit` of them at most: the path to a table, and a
name in it. -/
def readParts : Nat → List Char → Option ((List String × String) × List Char)
  | 0, _ => none
  | limit + 1, cs =>
    match readKeyPart (skipBlanks cs) with
    | none => none
    | some (part, rest) =>
      match skipBlanks rest with
      | '.' :: rest =>
        (readParts limit rest).map fun ((path, name), rest) => ((part :: path, name), rest)
      | rest => some (([], part), rest)

def readKey : List Char → Option ((List String × String) × List Char) :=
  readParts (depthLimit - 1)

mutual

/-- Reads a value inside of `depth` arrays and tables. -/
def readValue : Nat → Nat → List Char → Option (Toml × List Char)
  | 0, _, _ => none
  | fuel + 1, depth, cs =>
    match cs with
    | '"' :: _ | '\'' :: _ => (readText cs).map fun (text, rest) => (.string text, rest)
    | '[' :: rest => if depth + 1 < depthLimit then readItems fuel (depth + 1) [] rest else none
    | '\x7b' :: rest =>
      if depth + 1 < depthLimit then
        match skipBlanks rest with
        | '\x7d' :: rest => some (.table .inPlace [], rest)
        | rest => readPairs fuel (depth + 1) (.table .headed []) rest
      else none
    | 't' :: 'r' :: 'u' :: 'e' :: rest => some (.boolean true, rest)
    | 'f' :: 'a' :: 'l' :: 's' :: 'e' :: rest => some (.boolean false, rest)
    | cs => if startsDate cs || startsTime cs then readMoment cs else readNumber cs

def readItems : Nat → Nat → List Toml → List Char → Option (Toml × List Char)
  | 0, _, _, _ => none
  | fuel + 1, depth, read, cs =>
    match skipLayout false cs with
    | ']' :: rest => some (.array read.reverse, rest)
    | cs =>
      match readValue fuel depth cs with
      | none => none
      | some (item, rest) =>
        match skipLayout false rest with
        | ',' :: rest => readItems fuel depth (item :: read) rest
        | ']' :: rest => some (.array (item :: read).reverse, rest)
        | _ => none

def readPairs : Nat → Nat → Toml → List Char → Option (Toml × List Char)
  | 0, _, _, _ => none
  | fuel + 1, depth, read, cs =>
    match readKey cs with
    | some ((path, name), '=' :: rest) =>
      match readValue fuel depth (skipBlanks rest) with
      | none => none
      | some (value, rest) =>
        match read.assign path name value with
        | none => none
        | some read =>
          match skipBlanks rest with
          | ',' :: rest => readPairs fuel depth read rest
          | '\x7d' :: rest => some (.table .inPlace (read.openEntries?.getD []), rest)
          | _ => none
    | _ => none

end

inductive Line where
  | assignment (path : List String) (name : String) (value : Toml)
  | header (path : List String) (name : String)
  | nextHeader (path : List String) (name : String)

def readLine (cs : List Char) : Option (Line × List Char) :=
  match cs with
  | '[' :: '[' :: rest =>
    match readKey rest with
    | some ((path, name), ']' :: ']' :: rest) => some (.nextHeader path name, rest)
    | _ => none
  | '[' :: rest =>
    match readKey rest with
    | some ((path, name), ']' :: rest) => some (.header path name, rest)
    | _ => none
  | cs =>
    match readKey cs with
    | some ((path, name), '=' :: rest) =>
      (readValue (2 * rest.length + 2) 0 (skipBlanks rest)).map fun (value, rest) =>
        (.assignment path name value, rest)
    | _ => none

structure Document where
  root : Toml := .table .headed []
  here : List String := []

def Document.add (d : Document) : Line → Option Document
  | .assignment path name value => do
    let assign (table : Toml) := table.assign path name value
    return { d with root := ← d.root.modify .implied (fun _ => true) assign d.here }
  | .header path name => do return ⟨← d.root.openTable path name, path ++ [name]⟩
  | .nextHeader path name => do return ⟨← d.root.openNext path name, path ++ [name]⟩

/-- Every line takes a character, so the length of the text is fuel enough. -/
def readDocument : Nat → Document → List Char → Option Toml
  | fuel, d, cs =>
    match skipLayout false cs, fuel with
    | [], _ => some d.root
    | _, 0 => none
    | cs, fuel + 1 =>
      match readLine cs with
      | none => none
      | some (line, rest) =>
        match d.add line, endLine? rest with
        | some d, some rest => readDocument fuel d rest
        | _, _ => none

def parse? (text : String) : Option Toml :=
  let cs :=
    match text.toList with
    | '\ufeff' :: rest => rest
    | cs => cs
  readDocument cs.length {} cs

end CognitiveAgent.Toml
