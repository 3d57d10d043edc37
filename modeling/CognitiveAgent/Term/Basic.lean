import CognitiveAgent.Number.Decimal
import CognitiveAgent.Text.Quoted

/-!
First-order terms with their text and their variables. Nothing here gives a term a meaning:
numbers are compared as numbers, and all else by its spelling.
-/

set_option autoImplicit false

namespace CognitiveAgent

inductive Term where
  | var (name : String)
  | atom (name : String)
  | number (value : Number)
  | string (value : String)
  | compound (functor : String) (args : List Term)
  | list (items : List Term)
deriving Inhabited

namespace Term

mutual

/-- Equality up to the numerical equality of numbers, so that a term holding a NaN differs from
itself. -/
def equal : Term → Term → Bool
  | .var a, .var b => a == b
  | .atom a, .atom b => a == b
  | .number a, .number b => a.equal b
  | .string a, .string b => a == b
  | .compound f as, .compound g bs => f == g && equalAll as bs
  | .list as, .list bs => equalAll as bs
  | _, _ => false

def equalAll : List Term → List Term → Bool
  | [], [] => true
  | a :: as, b :: bs => equal a b && equalAll as bs
  | _, _ => false

end

instance : BEq Term := ⟨equal⟩

mutual

/-- The variables of a term from left to right, each as often as it occurs. -/
def occurrences : Term → List String
  | .var name => [name]
  | .atom _ | .number _ | .string _ => []
  | .compound _ args => occurrencesAll args
  | .list items => occurrencesAll items

def occurrencesAll : List Term → List String
  | [] => []
  | t :: ts => occurrences t ++ occurrencesAll ts

end

def freeVars (t : Term) : List String := t.occurrences.eraseDups

def freeVarsAll (ts : List Term) : List String := (occurrencesAll ts).eraseDups

def isClosed (t : Term) : Bool := t.occurrences.isEmpty

def occurs (name : String) (t : Term) : Bool := t.occurrences.contains name

mutual

/-- Replaces all variables at once, each by its own image. -/
def subst (image : String → Term) : Term → Term
  | .var name => image name
  | .atom name => .atom name
  | .number value => .number value
  | .string value => .string value
  | .compound functor args => .compound functor (substAll image args)
  | .list items => .list (substAll image items)

def substAll (image : String → Term) : List Term → List Term
  | [] => []
  | t :: ts => subst image t :: substAll image ts

end

def replace (t : Term) (name : String) (replacement : Term) : Term :=
  t.subst fun other => if other = name then replacement else .var other

mutual

def display : Term → String
  | .var name => name
  | .atom name => name
  | .number value => value.display
  | .string value => Text.quote value
  | .compound functor args => functor ++ "(" ++ ", ".intercalate (displayAll args) ++ ")"
  | .list items => "[" ++ ", ".intercalate (displayAll items) ++ "]"

def displayAll : List Term → List String
  | [] => []
  | t :: ts => display t :: displayAll ts

end

/-- A name followed by its parameters in parentheses, or alone if it has none. -/
def displayCall (name : String) (params : List Term) : String :=
  if params.isEmpty then name else name ++ "(" ++ ", ".intercalate (displayAll params) ++ ")"

theorem equalAll_length {as bs : List Term} (same : equalAll as bs = true) :
    as.length = bs.length := by
  induction as generalizing bs with
  | nil => cases bs <;> simp_all [equalAll]
  | cons a as ih =>
      cases bs with
      | nil => simp [equalAll] at same
      | cons b bs =>
          simp only [equalAll, Bool.and_eq_true] at same
          simp [ih same.2]

theorem substAll_eq_map (image : String → Term) (ts : List Term) :
    substAll image ts = ts.map (subst image) := by
  induction ts with
  | nil => rfl
  | cons t ts ih => simp [substAll, ih]

end Term

end CognitiveAgent
