import CognitiveAgent.Term.Substitution

/-!
Unification. Two terms are read side by side from left to right up to the first variable that
must be bound. The binding is recorded, the variable is replaced in what is left to read, and
reading goes on; every round uses up one of the variables. Recorded bindings are not changed
by later ones.
-/

set_option autoImplicit false

namespace CognitiveAgent

/-- What reading two terms side by side comes to first. -/
inductive Confrontation where
  | agree
  | clash
  -- A variable opposite another term, and the pairs that are left to read.
  | demand (name : String) (term : Term) (rest : List (Term × Term))

namespace Term

mutual

def confront : Term → Term → Confrontation
  | .var a, .var b => if a = b then .agree else .demand a (.var b) []
  | .var a, right => .demand a right []
  | left, .var b => .demand b left []
  | .compound f as, .compound g bs =>
    if f = g ∧ as.length = bs.length then confrontAll as bs else .clash
  | .list as, .list bs => if as.length = bs.length then confrontAll as bs else .clash
  | left, right => if left.equal right then .agree else .clash

def confrontAll : List Term → List Term → Confrontation
  | a :: as, b :: bs =>
    match confront a b with
    | .agree => confrontAll as bs
    | .clash => .clash
    | .demand name term rest => .demand name term (rest ++ as.zip bs)
  | _, _ => .agree

end

end Term

namespace Unification

abbrev Problem := List (Term × Term)

def confront : Problem → Confrontation
  | [] => .agree
  | (left, right) :: others =>
    match left.confront right with
    | .agree => confront others
    | .clash => .clash
    | .demand name term rest => .demand name term (rest ++ others)

def replace (name : String) (term : Term) (problem : Problem) : Problem :=
  problem.map fun equation => (equation.1.replace name term, equation.2.replace name term)

/-- Solves equations whose terms mention no bound variable, by at most `fuel` new bindings. -/
def solve : Nat → Problem → Substitution → Option Substitution
  | 0, problem, s =>
    match confront problem with
    | .agree => some s
    | _ => none
  | fuel + 1, problem, s =>
    match confront problem with
    | .agree => some s
    | .clash => none
    | .demand name term rest =>
      if term.occurs name then none else solve fuel (replace name term rest) (s.bind name term)

end Unification

/-- Extends a substitution so that both terms have equal instances. Only variables of the two
instances are bound, so their number bounds the new bindings. -/
def Term.unify (left right : Term) (s : Substitution) : Option Substitution :=
  let first := left.apply s
  let second := right.apply s
  Unification.solve (Term.freeVarsAll [first, second]).length [(first, second)] s

def Term.mgu (left right : Term) : Option Substitution := left.unify right .empty

/-- Merges two substitutions: every binding of the second one becomes an equation to be solved
on top of the first. -/
def Substitution.combine (s other : Substitution) : Option Substitution :=
  other.bindings.foldlM (fun merged binding => (Term.var binding.1).unify binding.2 merged) s

/-- Whether solving equations between variables and terms one after the other, up to the first that
has no solution, comes to an end. -/
def Substitution.mergeEnds (s : Substitution) : List (String × Term) → Bool
  | [] => true
  | (name, term) :: rest =>
    s.resolves (.var name) && s.resolves term &&
      match (Term.var name).unify term s with
      | none => true
      | some merged => merged.mergeEnds rest

end CognitiveAgent
