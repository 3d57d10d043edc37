import CognitiveAgent.Proofs.Likeness

/-!
Unification read without a bound. Equations are taken from left to right. The sides of the next one
are instantiated under the bindings made so far, by following chains however long, and compared at
their heads: they are settled, they clash, a variable has to be bound, or their parts become the next
equations. Main statements: if no variable reaches itself at the start, reading comes to an end, it
instantiates no term under other than such bindings, and unifying is what it comes to.
-/

set_option autoImplicit false

namespace CognitiveAgent

/-- What two terms ask for, judged by their heads. -/
inductive Facing where
  | settled
  | clash
  | demand (name : String) (term : Term)
  | parts (lefts rights : List Term)

namespace Term

def face : Term → Term → Facing
  | .var a, .var b => if a = b then .settled else .demand a (.var b)
  | .var a, right => .demand a right
  | left, .var b => .demand b left
  | .compound f lefts, .compound g rights =>
    if f = g ∧ lefts.length = rights.length then .parts lefts rights else .clash
  | .list lefts, .list rights =>
    if lefts.length = rights.length then .parts lefts rights else .clash
  | left, right => if left.equal right then .settled else .clash

end Term

namespace Unification

/-- The terms, followed to the ends of their chains, ask for this. -/
inductive Faces (s : Substitution) (left right : Term) : Facing → Prop where
  | intro {first second : Term} (resolvesLeft : left.Resolves s first)
      (resolvesRight : right.Resolves s second) : Faces s left right (first.face second)

/-- What reading equations on top of bindings comes to. Every substitution under which terms are
instantiated on the way is sound. -/
inductive Reads (sound : Substitution → Prop) :
    Problem → Substitution → Option Substitution → Prop where
  | done (s : Substitution) : Reads sound [] s (some s)
  | settled {left right : Term} {rest : Problem} {s : Substitution} {result : Option Substitution}
      (now : sound s) (faces : Faces s left right .settled) (later : Reads sound rest s result) :
      Reads sound ((left, right) :: rest) s result
  | clash {left right : Term} (rest : Problem) {s : Substitution}
      (now : sound s) (faces : Faces s left right .clash) :
      Reads sound ((left, right) :: rest) s none
  | circular {left right term : Term} {name : String} (rest : Problem) {s : Substitution}
      (now : sound s) (faces : Faces s left right (.demand name term))
      (inside : term.occurs name = true) : Reads sound ((left, right) :: rest) s none
  | binding {left right term : Term} {name : String} {rest : Problem} {s : Substitution}
      {result : Option Substitution} (now : sound s)
      (faces : Faces s left right (.demand name term)) (outside : term.occurs name = false)
      (later : Reads sound rest (s.bind name term) result) :
      Reads sound ((left, right) :: rest) s result
  | parts {left right : Term} {lefts rights : List Term} {rest : Problem} {s : Substitution}
      {result : Option Substitution} (now : sound s)
      (faces : Faces s left right (.parts lefts rights))
      (later : Reads sound (lefts.zip rights ++ rest) s result) :
      Reads sound ((left, right) :: rest) s result

end Unification

/-! ### Heads -/

def Facing.Fits (left right : Term) : Facing → Prop
  | .settled => left.Alike right
  | .clash => left.NaNFree → ∀ image, ¬ (left.subst image).Alike (right.subst image)
  | .demand name term => term ≠ .var name ∧
      (left = .var name ∧ right = term ∨ left = term ∧ right = .var name)
  | .parts lefts rights => lefts.length = rights.length ∧
      ((∃ functor, left = .compound functor lefts ∧ right = .compound functor rights) ∨
        left = .list lefts ∧ right = .list rights)

namespace Term

private theorem face_var (name : String) (right : Term) :
    ((Term.var name).face right).Fits (.var name) right := by
  cases right with
  | var other =>
      simp only [face]
      by_cases same : name = other
      · rw [if_pos same, same]
        exact .var other
      · rw [if_neg same]
        exact ⟨fun equal => same (Term.var.inj equal).symm, .inl ⟨rfl, rfl⟩⟩
  | atom | number | string | compound | list => exact ⟨Term.noConfusion, .inl ⟨rfl, rfl⟩⟩

private theorem face_leaf {left right : Term} (leftFixed : ∀ image, left.subst image = left)
    (rightFixed : ∀ image, right.subst image = right) :
    (if left.equal right then Facing.settled else .clash).Fits left right := by
  by_cases same : left.equal right = true
  · rw [if_pos same]
    exact alike_of_equal left right same
  · rw [if_neg same]
    intro free image alike
    rw [leftFixed, rightFixed] at alike
    exact same (alike.equal free)

private theorem face_compound (f g : String) (lefts rights : List Term) :
    ((Term.compound f lefts).face (.compound g rights)).Fits
      (.compound f lefts) (.compound g rights) := by
  simp only [face]
  by_cases fits : f = g ∧ lefts.length = rights.length
  · rw [if_pos fits, fits.1]
    exact ⟨fits.2, .inl ⟨g, rfl, rfl⟩⟩
  · rw [if_neg fits]
    intro _ image alike
    cases alike with
    | compound _ all =>
        have same := all.length_eq
        simp only [substAll_eq_map, List.length_map] at same
        exact fits ⟨rfl, same⟩

private theorem face_list (lefts rights : List Term) :
    ((Term.list lefts).face (.list rights)).Fits (.list lefts) (.list rights) := by
  simp only [face]
  by_cases fits : lefts.length = rights.length
  · rw [if_pos fits]
    exact ⟨fits, .inr ⟨rfl, rfl⟩⟩
  · rw [if_neg fits]
    intro _ image alike
    cases alike with
    | list all =>
        have same := all.length_eq
        simp only [substAll_eq_map, List.length_map] at same
        exact fits same

private theorem face_fits (left right : Term) : (left.face right).Fits left right := by
  cases left with
  | var name => exact face_var name right
  | atom | number | string =>
      cases right with
      | var => exact ⟨Term.noConfusion, .inr ⟨rfl, rfl⟩⟩
      | atom | number | string => exact face_leaf (fun _ => rfl) (fun _ => rfl)
      | compound | list => intro _ image alike; cases alike
  | compound f lefts =>
      cases right with
      | var => exact ⟨Term.noConfusion, .inr ⟨rfl, rfl⟩⟩
      | atom | number | string | list => intro _ image alike; cases alike
      | compound g rights => exact face_compound f g lefts rights
  | list lefts =>
      cases right with
      | var => exact ⟨Term.noConfusion, .inr ⟨rfl, rfl⟩⟩
      | atom | number | string | compound => intro _ image alike; cases alike
      | list rights => exact face_list lefts rights

end Term

namespace Unification

def ofFacing : Facing → Confrontation
  | .settled => .agree
  | .clash => .clash
  | .demand name term => .demand name term []
  | .parts lefts rights => confront (lefts.zip rights)

private theorem confront_eq_ofFacing (left right : Term) :
    left.confront right = ofFacing (left.face right) := by
  have leaf (left right : Term) : (if left.equal right then Confrontation.agree else .clash) =
      ofFacing (if left.equal right then .settled else .clash) := by
    by_cases same : left.equal right = true
    · rw [if_pos same, if_pos same]; rfl
    · rw [if_neg same, if_neg same]; rfl
  cases left with
  | var name =>
      cases right with
      | var other =>
          simp only [Term.confront, Term.face]
          by_cases same : name = other
          · rw [if_pos same, if_pos same]; rfl
          · rw [if_neg same, if_neg same]; rfl
      | atom | number | string | compound | list => rfl
  | atom | number | string =>
      cases right with
      | var => rfl
      | atom | number | string | compound | list =>
          simp only [Term.confront, Term.face]
          exact leaf _ _
  | compound f lefts =>
      cases right with
      | var => rfl
      | atom | number | string | list =>
          simp only [Term.confront, Term.face]
          exact leaf _ _
      | compound g rights =>
          simp only [Term.confront, Term.face]
          by_cases fits : f = g ∧ lefts.length = rights.length
          · rw [if_pos fits, if_pos fits, confrontAll_eq fits.2]; rfl
          · rw [if_neg fits, if_neg fits]; rfl
  | list lefts =>
      cases right with
      | var => rfl
      | atom | number | string | compound =>
          simp only [Term.confront, Term.face]
          exact leaf _ _
      | list rights =>
          simp only [Term.confront, Term.face]
          by_cases fits : lefts.length = rights.length
          · rw [if_pos fits, if_pos fits, confrontAll_eq fits]; rfl
          · rw [if_neg fits, if_neg fits]; rfl

private theorem confront_append (first second : Problem) :
    confront (first ++ second) =
      match confront first with
      | .agree => confront second
      | .clash => .clash
      | .demand name term rest => .demand name term (rest ++ second) := by
  induction first with
  | nil => rfl
  | cons equation first ih =>
      obtain ⟨left, right⟩ := equation
      rw [List.cons_append, confront, confront, ih]
      cases left.confront right with
      | agree => rfl
      | clash => rfl
      | demand name term rest => simp only [List.append_assoc]

private theorem confront_cons (left right : Term) (rest : Problem) :
    confront ((left, right) :: rest) =
      match left.face right with
      | .settled => confront rest
      | .clash => .clash
      | .demand name term => .demand name term rest
      | .parts lefts rights => confront (lefts.zip rights ++ rest) := by
  rw [confront, confront_eq_ofFacing]
  cases left.face right with
  | settled | clash | demand => rfl
  | parts lefts rights =>
      change _ = confront (lefts.zip rights ++ rest)
      rw [confront_append]
      rfl

private theorem solve_congr {first second : Problem} (same : confront first = confront second)
    (fuel : Nat) (s : Substitution) : solve fuel first s = solve fuel second s := by
  cases fuel with
  | zero => rw [solve, solve, same]
  | succ fuel => rw [solve, solve, same]

private theorem solve_of_clash {problem : Problem} (clash : confront problem = .clash) (fuel : Nat)
    (s : Substitution) : solve fuel problem s = none := by
  cases fuel with
  | zero => rw [solve, clash]
  | succ fuel => rw [solve, clash]

private theorem solve_of_circular {problem rest : Problem} {name : String} {term : Term}
    (demand : confront problem = .demand name term rest) (inside : term.occurs name = true)
    (fuel : Nat) (s : Substitution) : solve fuel problem s = none := by
  cases fuel with
  | zero => rw [solve, demand]
  | succ fuel => rw [solve, demand]; exact if_pos inside

/-! ### Equations under bindings -/

def under (s : Substitution) (problem : Problem) : Problem :=
  problem.map fun equation => (equation.1.apply s, equation.2.apply s)

def Mentions (problem : Problem) (x : String) : Prop :=
  ∃ equation ∈ problem, x ∈ equation.1.occurrences ∨ x ∈ equation.2.occurrences

def weight : Problem → Nat
  | [] => 0
  | (left, right) :: rest => left.nodes + right.nodes + weight rest

variable {s : Substitution} {left right : Term} {rest : Problem} {x name : String} {term : Term}
variable {lefts rights : List Term}

private theorem under_cons (s : Substitution) (left right : Term) (rest : Problem) :
    under s ((left, right) :: rest) = (left.apply s, right.apply s) :: under s rest := rfl

private theorem under_append (s : Substitution) (first second : Problem) :
    under s (first ++ second) = under s first ++ under s second := List.map_append

theorem mentions_cons : Mentions ((left, right) :: rest) x ↔
    (x ∈ left.occurrences ∨ x ∈ right.occurrences) ∨ Mentions rest x := by
  simp [Mentions]

private theorem mentions_append {first second : Problem} :
    Mentions (first ++ second) x ↔ Mentions first x ∨ Mentions second x := by
  simp only [Mentions, List.mem_append, or_and_right, exists_or]

private theorem mentions_zip (mentions : Mentions (lefts.zip rights) x) :
    x ∈ Term.occurrencesAll lefts ∨ x ∈ Term.occurrencesAll rights := by
  obtain ⟨equation, member, occurs | occurs⟩ := mentions
  · exact .inl (Term.mem_occurrencesAll.mpr ⟨_, (List.of_mem_zip member).1, occurs⟩)
  · exact .inr (Term.mem_occurrencesAll.mpr ⟨_, (List.of_mem_zip member).2, occurs⟩)

private theorem mentions_replace {problem : Problem}
    (mentions : Mentions (replace name term problem) x) :
    x ∈ term.occurrences ∨ Mentions problem x := by
  have either {t : Term} (occurs : x ∈ (t.replace name term).occurrences) :
      x ∈ term.occurrences ∨ x ∈ t.occurrences := by
    obtain ⟨y, here, inside⟩ := (Term.mem_occurrences_subst _ t).mp occurs
    by_cases same : y = name
    · rw [if_pos same] at inside
      exact .inl inside
    · rw [if_neg same] at inside
      rw [List.mem_singleton.mp inside]
      exact .inr here
  obtain ⟨equation, member, occurs⟩ := mentions
  obtain ⟨earlier, inside, rfl⟩ := List.mem_map.mp member
  rcases occurs with occurs | occurs
  · exact (either occurs).imp_right fun here => ⟨earlier, inside, .inl here⟩
  · exact (either occurs).imp_right fun here => ⟨earlier, inside, .inr here⟩

private theorem weight_append (first second : Problem) :
    weight (first ++ second) = weight first + weight second := by
  induction first with
  | nil => simp [weight]
  | cons equation first ih =>
      obtain ⟨left, right⟩ := equation
      simp only [List.cons_append, weight, ih]
      omega

private theorem weight_zip (lefts rights : List Term) :
    weight (lefts.zip rights) ≤ Term.nodesAll lefts + Term.nodesAll rights := by
  induction lefts generalizing rights with
  | nil => simp [weight]
  | cons left lefts ih =>
      cases rights with
      | nil => simp [weight]
      | cons right rights =>
          have rest := ih rights
          simp only [List.zip_cons_cons, weight, Term.nodesAll]
          omega

private theorem weight_rest : weight (under s rest) < weight (under s ((left, right) :: rest)) := by
  have positive := Term.nodes_pos (left.apply s)
  rw [under_cons, weight]
  omega

/-! ### Steps of reading -/

section Steps

variable (acyclic : s.Acyclic)
include acyclic

private theorem Faces.eq_face {facing : Facing} (faces : Faces s left right facing) :
    (left.apply s).face (right.apply s) = facing := by
  obtain ⟨resolvesLeft, resolvesRight⟩ := faces
  obtain rfl := (Term.resolves_iff acyclic left _).mp resolvesLeft
  obtain rfl := (Term.resolves_iff acyclic right _).mp resolvesRight
  rfl

private theorem faces_of_acyclic (left right : Term) :
    Faces s left right ((left.apply s).face (right.apply s)) :=
  .intro (Term.resolves_of_acyclic acyclic left) (Term.resolves_of_acyclic acyclic right)

private theorem not_mem_domain_of_mentions {problem : Problem}
    (mentions : Mentions (under s problem) x) :
    x ∉ s.domain := by
  obtain ⟨equation, member, occurs⟩ := mentions
  obtain ⟨earlier, _, rfl⟩ := List.mem_map.mp member
  rcases occurs with occurs | occurs
  · exact acyclic.not_mem_domain occurs
  · exact acyclic.not_mem_domain occurs

theorem Faces.fits {facing : Facing} (faces : Faces s left right facing) :
    facing.Fits (left.apply s) (right.apply s) := by
  rw [← faces.eq_face acyclic]
  exact Term.face_fits _ _

theorem Faces.mentions (faces : Faces s left right (.demand name term)) (rest : Problem) :
    Mentions (under s ((left, right) :: rest)) name ∧
      ∀ y ∈ term.occurrences, Mentions (under s ((left, right) :: rest)) y := by
  obtain ⟨_, ⟨here, there⟩ | ⟨here, there⟩⟩ := faces.fits acyclic
  · rw [under_cons, here, there]
    simp only [mentions_cons]
    exact ⟨.inl (.inl List.mem_cons_self), fun y occurs => .inl (.inr occurs)⟩
  · rw [under_cons, here, there]
    simp only [mentions_cons]
    exact ⟨.inl (.inr List.mem_cons_self), fun y occurs => .inl (.inl occurs)⟩

/-- A variable that has to be bound is not bound yet, and neither are those of its term. -/
theorem Faces.unbound (faces : Faces s left right (.demand name term)) :
    name ∉ s.domain ∧ ∀ y ∈ term.occurrences, y ∉ s.domain := by
  obtain ⟨bound, inside⟩ := faces.mentions acyclic []
  constructor
  · exact not_mem_domain_of_mentions acyclic bound
  · exact fun y occurs => not_mem_domain_of_mentions acyclic (inside y occurs)

theorem Faces.fresh (faces : Faces s left right (.demand name term))
    (outside : term.occurs name = false) : ∀ y ∈ term.occurrences, y ∉ s.domain ∧ y ≠ name := by
  intro y occurs
  constructor
  · exact (faces.unbound acyclic).2 y occurs
  · rintro rfl
    rw [Term.occurs_iff.mpr occurs] at outside
    cases outside

theorem Faces.acyclic_bind (faces : Faces s left right (.demand name term))
    (outside : term.occurs name = false) : (s.bind name term).Acyclic :=
  acyclic.bind (faces.unbound acyclic).1 (faces.fresh acyclic outside)

private theorem Faces.under_bind (faces : Faces s left right (.demand name term))
    (outside : term.occurs name = false) (problem : Problem) :
    under (s.bind name term) problem = replace name term (under s problem) := by
  unfold under replace
  rw [List.map_map]
  apply List.map_congr_left
  intro equation _
  have unbound := (faces.unbound acyclic).1
  have fresh := faces.fresh acyclic outside
  simp only [acyclic.apply_bind unbound fresh, Function.comp]

/-- A binding takes its variable out of what is left to read and brings no other one in. -/
theorem Faces.mentions_bind (faces : Faces s left right (.demand name term))
    (outside : term.occurs name = false) (mentions : Mentions (under (s.bind name term) rest) x) :
    x ≠ name ∧ Mentions (under s ((left, right) :: rest)) x := by
  constructor
  · rintro rfl
    apply not_mem_domain_of_mentions (faces.acyclic_bind acyclic outside) mentions
    exact Substitution.mem_domain_bind.mpr (.inl rfl)
  · rw [faces.under_bind acyclic outside] at mentions
    rcases mentions_replace mentions with occurs | later
    · exact (faces.mentions acyclic rest).2 x occurs
    · exact mentions_cons.mpr (.inr later)

/-- The parts of instantiated terms are instantiated. -/
theorem Faces.under_parts (faces : Faces s left right (.parts lefts rights)) :
    under s (lefts.zip rights) = lefts.zip rights := by
  have fixed {t : Term} {ts : List Term} (inside : t ∈ ts)
      (fresh : ∀ y ∈ Term.occurrencesAll ts, y ∉ s.domain) : t.apply s = t := by
    apply Substitution.apply_of_fresh
    exact fun y occurs => fresh y (Term.mem_occurrencesAll.mpr ⟨t, inside, occurs⟩)
  have fresh : (∀ y ∈ Term.occurrencesAll lefts, y ∉ s.domain) ∧
      ∀ y ∈ Term.occurrencesAll rights, y ∉ s.domain := by
    have first (y : String) := acyclic.not_mem_domain (t := left) (y := y)
    have second (y : String) := acyclic.not_mem_domain (t := right) (y := y)
    obtain ⟨_, ⟨functor, here, there⟩ | ⟨here, there⟩⟩ := faces.fits acyclic
    · rw [here] at first
      rw [there] at second
      exact ⟨first, second⟩
    · rw [here] at first
      rw [there] at second
      exact ⟨first, second⟩
  unfold under
  apply (List.map_congr_left _).trans (List.map_id _)
  intro equation member
  have inside := List.of_mem_zip member
  exact Prod.ext (fixed inside.1 fresh.1) (fixed inside.2 fresh.2)

theorem Faces.mentions_parts (faces : Faces s left right (.parts lefts rights))
    (mentions : Mentions (under s (lefts.zip rights ++ rest)) x) :
    Mentions (under s ((left, right) :: rest)) x := by
  rw [under_append, faces.under_parts acyclic, mentions_append] at mentions
  rw [under_cons, mentions_cons]
  refine mentions.imp_left fun inside => ?_
  obtain ⟨_, ⟨functor, here, there⟩ | ⟨here, there⟩⟩ := faces.fits acyclic
  · rw [here, there]
    exact mentions_zip inside
  · rw [here, there]
    exact mentions_zip inside

private theorem Faces.weight_parts (faces : Faces s left right (.parts lefts rights)) :
    weight (under s (lefts.zip rights ++ rest)) < weight (under s ((left, right) :: rest)) := by
  rw [under_append, faces.under_parts acyclic, weight_append, under_cons, weight]
  have pairs := weight_zip lefts rights
  obtain ⟨_, ⟨functor, here, there⟩ | ⟨here, there⟩⟩ := faces.fits acyclic
  · rw [here, there, Term.nodes, Term.nodes]
    omega
  · rw [here, there, Term.nodes, Term.nodes]
    omega

end Steps

/-! ### Whole readings -/

/-- An equation can be read if reading goes on wherever its heads lead. -/
theorem exists_reads_cons (acyclic : s.Acyclic)
    (skips : ∃ result, Reads Substitution.Acyclic rest s result)
    (binds : ∀ name term, Faces s left right (.demand name term) → term.occurs name = false →
      ∃ result, Reads Substitution.Acyclic rest (s.bind name term) result)
    (descends : ∀ lefts rights, Faces s left right (.parts lefts rights) →
      ∃ result, Reads Substitution.Acyclic (lefts.zip rights ++ rest) s result) :
    ∃ result, Reads Substitution.Acyclic ((left, right) :: rest) s result := by
  have faces := faces_of_acyclic acyclic left right
  cases met : (left.apply s).face (right.apply s) with
  | settled =>
      rw [met] at faces
      obtain ⟨result, later⟩ := skips
      exact ⟨result, .settled acyclic faces later⟩
  | clash =>
      rw [met] at faces
      exact ⟨none, .clash rest acyclic faces⟩
  | demand name term =>
      rw [met] at faces
      cases inside : term.occurs name with
      | true => exact ⟨none, .circular rest acyclic faces inside⟩
      | false =>
          obtain ⟨result, later⟩ := binds name term faces inside
          exact ⟨result, .binding acyclic faces inside later⟩
  | parts lefts rights =>
      rw [met] at faces
      obtain ⟨result, later⟩ := descends lefts rights faces
      exact ⟨result, .parts acyclic faces later⟩

private theorem exists_reads_of_names {problem : Problem} (acyclic : s.Acyclic)
    (names : List String) (known : ∀ x, Mentions (under s problem) x → x ∈ names) :
    ∃ result, Reads Substitution.Acyclic problem s result := by
  -- A binding uses up one of the names. As long as none is made, the equations lose weight.
  induction bound : names.length using Nat.strongRecOn generalizing names problem s with
  | ind count fewer =>
      induction load : weight (under s problem) using Nat.strongRecOn generalizing problem with
      | ind heavy lighter =>
          cases problem with
          | nil => exact ⟨some s, .done s⟩
          | cons equation rest =>
              obtain ⟨left, right⟩ := equation
              apply exists_reads_cons acyclic
              · apply lighter _ _ _ rfl
                · rw [← load]
                  exact weight_rest
                · exact fun x later => known x (mentions_cons.mpr (.inr later))
              · intro name term faces outside
                have member : name ∈ names := known name (faces.mentions acyclic rest).1
                apply fewer _ _ (faces.acyclic_bind acyclic outside) (names.erase name) _ rfl
                · rw [List.length_erase_of_mem member, ← bound]
                  have positive := List.length_pos_of_mem member
                  omega
                · intro x mentions
                  obtain ⟨other, earlier⟩ := faces.mentions_bind acyclic outside mentions
                  exact (List.mem_erase_of_ne other).mpr (known x earlier)
              · intro lefts rights faces
                apply lighter _ _ _ rfl
                · rw [← load]
                  exact faces.weight_parts acyclic
                · exact fun x inside => known x (faces.mentions_parts acyclic inside)

theorem exists_mem_names (problem : Problem) :
    ∃ names : List String, ∀ x, Mentions problem x → x ∈ names := by
  refine ⟨Term.occurrencesAll (problem.flatMap fun equation => [equation.1, equation.2]), ?_⟩
  rintro x ⟨equation, member, occurs⟩
  rw [Term.mem_occurrencesAll]
  rcases occurs with occurs | occurs
  · exact ⟨equation.1, List.mem_flatMap.mpr ⟨equation, member, by simp⟩, occurs⟩
  · exact ⟨equation.2, List.mem_flatMap.mpr ⟨equation, member, by simp⟩, occurs⟩

/-- Reading comes to an end. -/
theorem exists_reads (acyclic : s.Acyclic) (problem : Problem) :
    ∃ result, Reads Substitution.Acyclic problem s result := by
  obtain ⟨names, known⟩ := exists_mem_names (under s problem)
  exact exists_reads_of_names acyclic names known

/-- Solving instantiated equations gives what reading comes to, if there is fuel for all their
variables. -/
theorem Reads.solve_eq {problem : Problem} {result : Option Substitution}
    (reads : Reads Substitution.Acyclic problem s result) (names : List String)
    (known : ∀ x, Mentions (under s problem) x → x ∈ names) {fuel : Nat}
    (enough : names.length ≤ fuel) : solve fuel (under s problem) s = result := by
  induction reads generalizing names fuel with
  | done s =>
      cases fuel with
      | zero => rfl
      | succ fuel => rfl
  | @settled left right rest s result now faces later ih =>
      have same : confront (under s ((left, right) :: rest)) = confront (under s rest) := by
        rw [under_cons, confront_cons, faces.eq_face now]
      rw [solve_congr same]
      exact ih names (fun x inside => known x (mentions_cons.mpr (.inr inside))) enough
  | clash rest now faces =>
      apply solve_of_clash
      rw [under_cons, confront_cons, faces.eq_face now]
  | @circular left right term name rest s now faces inside =>
      have demand : confront (under s ((left, right) :: rest)) =
          .demand name term (under s rest) := by
        rw [under_cons, confront_cons, faces.eq_face now]
      exact solve_of_circular demand inside fuel s
  | @binding left right term name rest s result now faces outside later ih =>
      have demand : confront (under s ((left, right) :: rest)) =
          .demand name term (under s rest) := by
        rw [under_cons, confront_cons, faces.eq_face now]
      have member : name ∈ names := known name (faces.mentions now rest).1
      have positive := List.length_pos_of_mem member
      cases fuel with
      | zero => omega
      | succ fuel =>
          rw [solve, demand]
          simp only [outside, Bool.false_eq_true, if_false]
          rw [← faces.under_bind now outside]
          apply ih (names.erase name)
          · intro x mentions
            obtain ⟨other, earlier⟩ := faces.mentions_bind now outside mentions
            exact (List.mem_erase_of_ne other).mpr (known x earlier)
          · rw [List.length_erase_of_mem member]
            omega
  | @parts left right lefts rights rest s result now faces later ih =>
      have same : confront (under s ((left, right) :: rest)) =
          confront (under s (lefts.zip rights ++ rest)) := by
        rw [under_cons, confront_cons, faces.eq_face now, under_append, faces.under_parts now]
      rw [solve_congr same]
      exact ih names (fun x inside => known x (faces.mentions_parts now inside)) enough

theorem Reads.mono {sound weaker : Substitution → Prop} {problem : Problem}
    {result : Option Substitution} (implies : ∀ s, sound s → weaker s)
    (reads : Reads sound problem s result) : Reads weaker problem s result := by
  induction reads with
  | done s => exact .done s
  | settled now faces _ ih => exact .settled (implies _ now) faces ih
  | clash rest now faces => exact .clash rest (implies _ now) faces
  | circular rest now faces inside => exact .circular rest (implies _ now) faces inside
  | binding now faces outside _ ih => exact .binding (implies _ now) faces outside ih
  | parts now faces _ ih => exact .parts (implies _ now) faces ih

/-- If no variable reaches itself at the start, none ever does. -/
theorem Reads.stays_acyclic {sound : Substitution → Prop} {problem : Problem}
    {result : Option Substitution} (reads : Reads sound problem s result) (acyclic : s.Acyclic) :
    Reads Substitution.Acyclic problem s result := by
  induction reads with
  | done s => exact .done s
  | settled _ faces _ ih => exact .settled acyclic faces (ih acyclic)
  | clash rest _ faces => exact .clash rest acyclic faces
  | circular rest _ faces inside => exact .circular rest acyclic faces inside
  | binding _ faces outside _ ih =>
      exact .binding acyclic faces outside (ih (faces.acyclic_bind acyclic outside))
  | parts _ faces _ ih => exact .parts acyclic faces (ih acyclic)

end Unification

namespace Term

variable {s : Substitution}

private theorem unify_of_reads {left right : Term} {result : Option Substitution}
    (reads : Unification.Reads Substitution.Acyclic [(left, right)] s result) :
    left.unify right s = result := by
  apply reads.solve_eq (freeVarsAll [left.apply s, right.apply s])
  · intro x mentions
    rw [mem_freeVarsAll]
    simpa [Unification.Mentions, Unification.under] using mentions
  · exact Nat.le_refl _

theorem reads_unify (acyclic : s.Acyclic) (left right : Term) :
    Unification.Reads Substitution.Acyclic [(left, right)] s (left.unify right s) := by
  obtain ⟨result, reads⟩ := Unification.exists_reads acyclic [(left, right)]
  rw [unify_of_reads reads]
  exact reads

/-- Unifying is what reading comes to, whatever is allowed on the way. -/
theorem reads_iff_unify (acyclic : s.Acyclic) (left right : Term)
    (result : Option Substitution) :
    Unification.Reads (fun _ => True) [(left, right)] s result ↔ result = left.unify right s := by
  constructor
  · intro reads
    exact (unify_of_reads (reads.stays_acyclic acyclic)).symm
  · rintro rfl
    exact (reads_unify acyclic left right).mono fun _ _ => trivial

end Term

end CognitiveAgent
