import CognitiveAgent.Text.Alphanumeric

/-!
Files that assign variables, one `NAME=value` a line. Values may be quoted, and then may run
over several lines; a backslash escapes, and `$NAME` or a name in braces stands for a variable.
Reading ends at the first line that is not well written, and keeps what came before it.
-/

set_option autoImplicit false

namespace CognitiveAgent

abbrev Variables := List (String × String)

namespace Assignments

def isBlank (c : Char) : Bool :=
  (0x9 ≤ c.toNat && c.toNat ≤ 0xd) || (0x2000 ≤ c.toNat && c.toNat ≤ 0x200a) ||
    [0x20, 0x85, 0xa0, 0x1680, 0x2028, 0x2029, 0x202f, 0x205f, 0x3000].contains c.toNat

def skipBlanks (cs : List Char) : List Char := cs.dropWhile isBlank

def trimEnd (cs : List Char) : List Char := (skipBlanks cs.reverse).reverse

/-! ## Lines -/

inductive Position where
  | plain
  | blank
  | escape
  | strong
  | strongEscape
  | weak
  | weakEscape
deriving DecidableEq

def Position.open (c : Char) : Position :=
  match c with
  | '\\' => .escape
  | '"' => .weak
  | '\'' => .strong
  | _ => .plain

def Position.next (p : Position) (c : Char) : Position :=
  match p with
  | .plain => if isBlank c && c != '\n' && c != '\r' then .blank else .open c
  | .blank => .open c
  | .escape => .plain
  | .weak => if c == '\\' then .weakEscape else if c == '"' then .plain else .weak
  | .weakEscape => .weak
  | .strong => if c == '\\' then .strongEscape else if c == '\'' then .plain else .strong
  | .strongEscape => .strong

def dropLine (cs : List Char) : List Char := (cs.dropWhile (· != '\n')).drop 1

/-- The next line. A comment behind a blank is cut off, and a line end inside of quotes belongs
to the line. A text that ends inside of quotes, or behind a blank or a backslash, has no line. -/
def readLine : Position → List Char → List Char → Option (List Char × List Char)
  | p, read, [] => if p = .plain then some (read.reverse, []) else none
  | p, read, c :: rest =>
    if p = .blank ∧ c = '#' then some (read.reverse, dropLine rest)
    else if c = '\n' ∧ p.next c = .plain then some (read.reverse, rest)
    else readLine (p.next c) (c :: read) rest

def isComment (cs : List Char) : Bool := (skipBlanks (cs.takeWhile (· != '\n'))).head? == some '#'

/-! ## Values -/

/-- How the next character of a value is read. In the weak modes double quotes are open. -/
inductive Mode where
  | plain
  | weak
  | strong
  | escape (weak : Bool)
  -- Reading the name of a variable, in reverse.
  | name (weak : Bool) (read : List Char)
  | braced (weak : Bool) (read : List Char)
  -- Only blanks and a comment may follow.
  | ended
  | comment
deriving DecidableEq

def Mode.within (weak : Bool) : Mode := if weak then .weak else .plain

def valueReversed (vars : Variables) (read : List Char) : List Char :=
  ((vars.lookup (String.ofList read.reverse)).getD "").toList.reverse

def stepEscape (weak : Bool) (written : List Char) (c : Char) : Option (Mode × List Char) :=
  if ['\\', '\'', '"', '$', ' '].contains c then some (.within weak, c :: written)
  else if c = 'n' then some (.within weak, '\n' :: written)
  else none

def stepName (vars : Variables) (weak : Bool) (read written : List Char) (c : Char) :
    Mode × List Char :=
  if Text.isAlphanumeric c then (.name weak (c :: read), written)
  else if c = '\x7b' ∧ read = [] then (.braced weak [], written)
  else
    let written := valueReversed vars read ++ written
    if c = '$' then (.name weak [], written) else (.within weak, c :: written)

def stepPlain (written : List Char) (c : Char) : Mode × List Char :=
  match c with
  | '$' => (.name false [], written)
  | '\'' => (.strong, written)
  | '"' => (.weak, written)
  | '\\' => (.escape false, written)
  | ' ' | '\t' => (.ended, written)
  | c => (.plain, c :: written)

/-- Reads a character; `written` is the value so far, in reverse. -/
def step (vars : Variables) : Mode × List Char → Char → Option (Mode × List Char)
  | (.plain, written), c => some (stepPlain written c)
  | (.weak, written), c =>
    match c with
    | '$' => some (.name true [], written)
    | '"' => some (.plain, written)
    | '\\' => some (.escape true, written)
    | c => some (.weak, c :: written)
  | (.strong, written), c =>
    if c = '\'' then some (.plain, written) else some (.strong, c :: written)
  | (.escape weak, written), c => stepEscape weak written c
  | (.name weak read, written), c => some (stepName vars weak read written c)
  | (.braced weak read, written), c =>
    if c = '\x7d' then some (.within weak, valueReversed vars read ++ written)
    else some (.braced weak (c :: read), written)
  | (.ended, written), c =>
    if c = ' ' ∨ c = '\t' then some (.ended, written)
    else if c = '#' then some (.comment, written)
    else none
  | (.comment, written), _ => some (.comment, written)

def finish (vars : Variables) : Mode × List Char → Option String
  | (.plain, written) | (.ended, written) | (.comment, written) | (.escape false, written) =>
    some (String.ofList written.reverse)
  | (.name false read, written) =>
    some (String.ofList (valueReversed vars read ++ written).reverse)
  | _ => none

def value? (vars : Variables) (cs : List Char) : Option String := do
  finish vars (← cs.foldlM (step vars) (.plain, []))

/-! ## Assignments -/

def isNameStart (c : Char) : Bool := c.isAlpha || c == '_'

def isNamePart (c : Char) : Bool := c.isAlphanum || c == '_' || c == '.'

def readName (cs : List Char) : Option (String × List Char) :=
  match cs with
  | [] => none
  | c :: _ =>
    if isNameStart c then
      some (String.ofList (cs.takeWhile isNamePart), skipBlanks (cs.dropWhile isNamePart))
    else none

/-- The name that a line assigns to, with its written value. The word `export` may stand before
the name. -/
def readTarget (cs : List Char) : Option (String × List Char) := do
  match ← readName cs with
  | (name, '=' :: rest) => return (name, skipBlanks rest)
  | ("export", rest) =>
    match ← readName rest with
    | (name, '=' :: rest) => return (name, skipBlanks rest)
    | _ => none
  | _ => none

/-- What a line assigns; nothing at all for an empty line or a comment. -/
def assignment? (vars : Variables) (line : List Char) : Option (Option (String × String)) :=
  match skipBlanks (trimEnd line) with
  | [] => some none
  | '#' :: _ => some none
  | cs => do
    let (name, written) ← readTarget cs
    if written.head? = some '#' then return some (name, "")
    else return some (name, ← value? vars written)

def setNew (vars : Variables) (name value : String) : Variables :=
  if (vars.lookup name).isSome then vars else vars ++ [(name, value)]

/-- Every line takes a character, so the length of the text is fuel enough. -/
def readAll : Nat → Variables → List Char → Variables
  | 0, vars, _ => vars
  | _, vars, [] => vars
  | fuel + 1, vars, cs =>
    if isComment cs then readAll fuel vars (dropLine cs)
    else
      match readLine .plain [] cs with
      | none => vars
      | some (line, rest) =>
        match assignment? vars line with
        | none => vars
        | some none => readAll fuel vars rest
        | some (some (name, value)) => readAll fuel (setNew vars name value) rest

end Assignments

/-- The variables with those that a text assigns and that were not set before. -/
def Variables.extend (vars : Variables) (text : String) : Variables :=
  let cs :=
    match text.toList with
    | '\ufeff' :: rest => rest
    | cs => cs
  Assignments.readAll (cs.length + 1) vars cs

end CognitiveAgent
