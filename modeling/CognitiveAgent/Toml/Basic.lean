import CognitiveAgent.Number.Basic

/-!
Values of a TOML document. A table remembers how it came to be, because that decides whether a
later line may still add to it.
-/

set_option autoImplicit false

namespace CognitiveAgent

inductive TableOrigin where
  | inPlace
  | headed
  -- Named on the way by the header of an inner table.
  | implied
  -- Named on the way by a dotted key.
  | dotted
deriving DecidableEq, Inhabited

inductive Toml where
  | string (value : String)
  | integer (value : Int)
  | real (value : Number)
  | boolean (value : Bool)
  | moment (value : String)
  | array (items : List Toml)
  | table (origin : TableOrigin) (entries : List (String × Toml))
  -- A table per header in double brackets; entries go to the last one.
  | tables (earlier : List Toml) (last : List (String × Toml))
deriving Inhabited

namespace Toml

abbrev Entries := List (String × Toml)

/-- The entries that a later line may add to. -/
def openEntries? : Toml → Option Entries
  | .table .inPlace _ => none
  | .table _ entries => some entries
  | .tables _ last => some last
  | _ => none

def withEntries (entries : Entries) : Toml → Toml
  | .table origin _ => .table origin entries
  | .tables earlier _ => .tables earlier entries
  | value => value

def get? (name : String) : Toml → Option Toml
  | .table _ entries => entries.lookup name
  | _ => none

/-- Dotted keys lead on through tables without a header of their own. -/
def admitsDotted : Toml → Bool
  | .table .headed _ => false
  | _ => true

/-- Changes the entry of a name, or adds it. -/
def setEntry (name : String) (value : Toml) : Entries → Entries
  | [] => [(name, value)]
  | (key, old) :: rest =>
    if key = name then (key, value) :: rest else (key, old) :: setEntry name value rest

/-- Changes the table that a path leads to. Missing tables on the way are made with the given
origin; others must be passable. -/
def modify (made : TableOrigin) (passable : Toml → Bool) (change : Toml → Option Toml) :
    List String → Toml → Option Toml
  | [], t => change t
  | name :: path, t => do
    let entries ← t.openEntries?
    match entries.lookup name with
    | none =>
      let inner ← modify made passable change path (.table made [])
      return t.withEntries (setEntry name inner entries)
    | some inner =>
      if passable inner then
        let inner ← modify made passable change path inner
        return t.withEntries (setEntry name inner entries)
      else none

/-- Adds an entry under a name that is still free. -/
def insertNew (t : Toml) (name : String) (value : Toml) : Option Toml := do
  let entries ← t.openEntries?
  match entries.lookup name with
  | none => return t.withEntries (setEntry name value entries)
  | some _ => none

def isDotted : Toml → Bool
  | .table .dotted _ => true
  | _ => false

/-- The line `path.name = value` of a table. A path must end in a table of dotted keys. -/
def assign (t : Toml) (path : List String) (name : String) (value : Toml) : Option Toml :=
  let insert (inner : Toml) : Option Toml :=
    if path.isEmpty || inner.isDotted then inner.insertNew name value else none
  modify .dotted admitsDotted insert path t

/-- The header `[path.name]`, which gives a header of its own to a table that has none. -/
def openTable (t : Toml) (path : List String) (name : String) : Option Toml :=
  let add (parent : Toml) : Option Toml := do
    let entries ← parent.openEntries?
    match entries.lookup name with
    | none => return parent.withEntries (setEntry name (.table .headed []) entries)
    | some (.table .implied inner) =>
      return parent.withEntries (setEntry name (.table .headed inner) entries)
    | some _ => none
  modify .implied (fun _ => true) add path t

/-- The header `[[path.name]]`, which begins a new table under the name. -/
def openNext (t : Toml) (path : List String) (name : String) : Option Toml :=
  let add (parent : Toml) : Option Toml := do
    let entries ← parent.openEntries?
    match entries.lookup name with
    | none => return parent.withEntries (setEntry name (.tables [] []) entries)
    | some (.tables earlier last) =>
      let earlier := earlier ++ [.table .headed last]
      return parent.withEntries (setEntry name (.tables earlier []) entries)
    | some _ => none
  modify .implied (fun _ => true) add path t

end Toml

end CognitiveAgent
