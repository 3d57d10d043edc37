import CognitiveAgent.Configuration.Assignments
import CognitiveAgent.Configuration.Basic
import CognitiveAgent.Configuration.Layers
import CognitiveAgent.Number.Decimal
import CognitiveAgent.Number.Text
import CognitiveAgent.Toml.Reader

/-!
Where a configuration comes from. A document alone is read strictly. A file under the variables
of the environment is read leniently, because variables are plain text: scalars go to the type
that a key asks for.
-/

set_option autoImplicit false

namespace CognitiveAgent.Configuration

def field? {α : Type} (default : α) (decode : Toml → Option α) : Option Toml → Except Error α
  | none => .ok default
  | some value =>
    match decode value with
    | some result => .ok result
    | none => .error .invalid

/-! ## Documents -/

def isEmptyGroup : Toml → Bool
  | .array [] => true
  | .table _ [] => true
  | _ => false

def orderNamed? (name : String) : Option RuleOrder :=
  RuleOrder.all.find? (·.keyword = name)

/-- An order is its keyword, or a table from the keyword to nothing. -/
def strictOrder? : Toml → Option RuleOrder
  | .string name => orderNamed? name
  | .table _ [(name, content)] => if isEmptyGroup content then orderNamed? name else none
  | _ => none

def strictSeed? : Toml → Option UInt64
  | .integer value => if 0 ≤ value then some (UInt64.ofNat value.toNat) else none
  | _ => none

def strictText? : Toml → Option String
  | .string value => some value
  | _ => none

/-- The configuration that a document writes. Keys that are not known are passed over. -/
def ofDocument (text : String) : Except Error Configuration :=
  match Toml.parse? text with
  | none => .error .invalid
  | some document => do
    return { defaultOrder := ← field? .linear strictOrder? (document.get? "default_rule_order"),
             seed := ← field? none (fun value => (strictSeed? value).map some)
               (document.get? "rng_seed"),
             logFilter := ← field? "info" strictText? (document.get? "log_filter") }

/-! ## Files under variables -/

/-- Names of orders count in any case. -/
def lenientOrderNamed? (name : String) : Option RuleOrder :=
  orderNamed? name.toLower

def lenientOrder? : Toml → Option RuleOrder
  | .string name => lenientOrderNamed? name
  | .table _ [(name, _)] => lenientOrderNamed? name
  | _ => none

/-- A whole number of 64 bits, with no sign but a plus. -/
def wordOfText? (text : String) : Option Nat := do
  let value ← Text.int? text
  if text.front != '-' && value < Nat.pow 2 64 then return value.toNat else none

def seedOfText? (text : String) : Option Nat :=
  match text.toLower with
  | "true" | "on" | "yes" => some 1
  | "false" | "off" | "no" => some 0
  | _ => wordOfText? text

def lenientSeed? : Toml → Option Nat
  | .integer value => if 0 ≤ value then some value.toNat else none
  | .boolean value => some value.toNat
  | .real value => some (value.toNatUpTo (Nat.pow 2 64 - 1))
  | .string value => seedOfText? value
  | _ => none

def lenientText? : Toml → Option String
  | .string value | .moment value => some value
  | .boolean value => some (if value then "true" else "false")
  | .integer value => some (toString value)
  | .real value => some value.positional
  | _ => none

/-- What the text of a variable says: a truth value, a number, or just a text. -/
def ofVariable (text : String) : Toml :=
  match text.toLower with
  | "true" => .boolean true
  | "false" => .boolean false
  | _ =>
    match (Text.int? text).bind Toml.ofInt? with
    | some value => value
    | none =>
      match Number.ofText? text with
      | some value => .real value
      | none => .string text

/-- Variables with this start are keys of the configuration, in any case. -/
def variableStart : String := "bdi_"

def ofVariables (vars : Variables) : Toml.Entries :=
  vars.filterMap fun (name, text) =>
    let name := name.toLower
    if name.startsWith variableStart then
      some ((name.dropPrefix variableStart).toString, ofVariable text)
    else none

def ofSettings (settings : Toml.Entries) : Except Error Configuration := do
  return { defaultOrder := ← field? .linear lenientOrder? (settings.lookup "default_rule_order"),
           seed := ← field? none (fun value => (lenientSeed? value).map (some ∘ UInt64.ofNat))
             (settings.lookup "rng_seed"),
           logFilter := ← field? "info" lenientText? (settings.lookup "log_filter") }

def ofLayers (document : Toml.Entries) (vars : Variables) : Except Error Configuration :=
  ofSettings (addLayer (addLayer [] document) (ofVariables vars))

structure Surroundings where
  file? : String → Option String
  vars : Variables

/-- The parts of a path. Empty ones and single points lead nowhere. -/
def pathParts (path : String) : List String :=
  (path.splitOn "/").filter fun part => part != "" && part != "."

def leadsToDirectory (path : String) : Bool :=
  path.endsWith "/" || path.endsWith "/."

/-- A file by its path, or by its path with the usual ending. -/
def Surroundings.find? (s : Surroundings) (path : String) : Option String :=
  match (pathParts path).getLast? with
  | none | some ".." => none
  | some _ =>
    let plain := (if path.startsWith "/" then "/" else "") ++ "/".intercalate (pathParts path)
    let exact := if leadsToDirectory path then none else s.file? plain
    exact.or (s.file? (plain ++ ".toml"))

def defaultFile : String := "bdi.toml"

/-- A file may begin with a byte order mark, which is no part of its text. -/
def byteOrderMark : String := "\ufeff"

/-- The document of a named file, which must be there, or of the default one. -/
def Surroundings.document (s : Surroundings) (path : Option String) :
    Except Error Toml.Entries :=
  match s.find? (path.getD defaultFile), path with
  | some text, _ =>
    match Toml.parse? (text.dropPrefix byteOrderMark).toString with
    | some (.table _ entries) => .ok entries
    | _ => .error .unreadable
  | none, some _ => .error .unreadable
  | none, none => .ok []

def loadFrom (s : Surroundings) (path : Option String) : Except Error Configuration := do
  ofLayers (← s.document path) s.vars

/-- Loads with the variables of a file `.env` as well, one of which may name the file. -/
def load (s : Surroundings) : Except Error Configuration :=
  let s := { s with vars := s.vars.extend ((s.file? ".env").getD "") }
  loadFrom s (s.vars.lookup "BDI_CONFIG_PATH")

end CognitiveAgent.Configuration
