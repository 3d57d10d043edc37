import CognitiveAgent.Term.Basic

/-!
Substitutions: bindings of variables to terms, kept in the order of the variables' names. A
binding may mention bound variables; instantiating a term follows such chains to their end.
-/

set_option autoImplicit false

namespace CognitiveAgent

/-- Bindings in strictly ascending order of their variables. -/
structure Substitution where
  bindings : List (String × Term)
  ascending : bindings.Pairwise fun first second => first.1 < second.1

namespace Substitution

/-- Puts a binding in its place, over the one of the same variable. -/
def place (name : String) (term : Term) : List (String × Term) → List (String × Term)
  | [] => [(name, term)]
  | first :: rest =>
    if name < first.1 then (name, term) :: first :: rest
    else if name = first.1 then (name, term) :: rest
    else first :: place name term rest

theorem mem_place {name : String} {term : Term} {bindings : List (String × Term)}
    {binding : String × Term} (member : binding ∈ place name term bindings) :
    binding = (name, term) ∨ binding ∈ bindings := by
  induction bindings with
  | nil => simpa [place] using member
  | cons first rest ih =>
      unfold place at member
      split at member
      · simpa using member
      · split at member
        · rcases List.mem_cons.1 member with same | later
          · exact Or.inl same
          · exact Or.inr (List.mem_cons_of_mem _ later)
        · rcases List.mem_cons.1 member with same | later
          · exact Or.inr (same ▸ List.mem_cons_self)
          · rcases ih later with same | earlier
            · exact Or.inl same
            · exact Or.inr (List.mem_cons_of_mem _ earlier)

theorem place_ascending (name : String) (term : Term) {bindings : List (String × Term)}
    (ascending : bindings.Pairwise fun first second => first.1 < second.1) :
    (place name term bindings).Pairwise fun first second => first.1 < second.1 := by
  induction bindings with
  | nil => simp [place]
  | cons first rest ih =>
      have after := List.pairwise_cons.1 ascending
      unfold place
      split
      next before =>
        refine List.pairwise_cons.2 ⟨?_, ascending⟩
        intro other member
        rcases List.mem_cons.1 member with same | later
        · exact same ▸ before
        · exact String.lt_trans before (after.1 other later)
      next notBefore =>
        split
        next same =>
          refine List.pairwise_cons.2 ⟨?_, after.2⟩
          intro other member
          exact same ▸ after.1 other member
        next different =>
          refine List.pairwise_cons.2 ⟨?_, ih after.2⟩
          intro other member
          rcases mem_place member with placed | later
          · subst placed
            by_cases later : first.1 < name
            · exact later
            · exact absurd (String.le_antisymm (String.not_lt.1 later) (String.not_lt.1 notBefore))
                different
          · exact after.1 other later

def empty : Substitution := ⟨[], List.Pairwise.nil⟩

instance : Inhabited Substitution := ⟨empty⟩

def isEmpty (s : Substitution) : Bool := s.bindings.isEmpty

def size (s : Substitution) : Nat := s.bindings.length

def get? (s : Substitution) (name : String) : Option Term := s.bindings.lookup name

def bind (s : Substitution) (name : String) (term : Term) : Substitution :=
  ⟨place name term s.bindings, place_ascending name term s.ascending⟩

def erase (s : Substitution) (name : String) : Substitution :=
  ⟨s.bindings.filter (·.1 != name), s.ascending.filter _⟩

def retain (s : Substitution) (names : List String) : Substitution :=
  ⟨s.bindings.filter fun binding => names.contains binding.1, s.ascending.filter _⟩

def domain (s : Substitution) : List String := s.bindings.map (·.1)

/-- A later binding of a variable replaces an earlier one. -/
def ofList (bindings : List (String × Term)) : Substitution :=
  bindings.foldl (fun s binding => s.bind binding.1 binding.2) empty

def display (s : Substitution) : String :=
  let shown := s.bindings.map fun binding => binding.1 ++ "/" ++ binding.2.display
  "[" ++ ", ".intercalate shown ++ "]"

/-- The value of a variable after following at most `fuel` bindings along each chain. -/
def value (s : Substitution) : Nat → String → Term
  | 0, name => .var name
  | fuel + 1, name =>
    match s.get? name with
    | none => .var name
    | some term => term.subst (s.value fuel)

end Substitution

/-- Instantiates a term. Every chain of bindings is followed through as many links as there are
bindings, which is to its end unless a variable reaches itself. From such a variable on the bindings
could be followed for ever: there an interpreter does not return, which `Substitution.resolves`
tells. -/
def Term.apply (t : Term) (s : Substitution) : Term := t.subst (s.value s.size)

/-- Whether instantiating the term comes to an end: no bound variable is left. -/
def Substitution.resolves (s : Substitution) (t : Term) : Bool :=
  (t.apply s).occurrences.all fun name => !s.domain.contains name

end CognitiveAgent
