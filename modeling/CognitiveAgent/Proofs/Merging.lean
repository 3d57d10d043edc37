import CognitiveAgent.Proofs.Unifiers

/-!
Merging substitutions. The bindings of the second one are read as equations, one after the other,
on top of the first one. Main statement: the merge comes to an end even if the second substitution
leads in a circle, it fails only where the two have no solution in common, and otherwise it is the
most general solution that keeps the first one as it is.
-/

set_option autoImplicit false

namespace CognitiveAgent

namespace Term

variable {image : String → Term} {x : String}

/-! ### Equal terms -/

mutual

theorem nanFree_of_equal :
    ∀ left right : Term, left.equal right = true → left.NaNFree ∧ right.NaNFree
  | .var _, .var _, _ | .atom _, .atom _, _ | .string _, .string _, _ =>
      ⟨fun _ member => absurd member List.not_mem_nil,
        fun _ member => absurd member List.not_mem_nil⟩
  | .number _, .number _, same => by
      obtain ⟨first, second, _⟩ := Number.equal_iff.mp same
      constructor
      · intro value member
        rw [List.mem_singleton.mp member]
        exact first
      · intro value member
        rw [List.mem_singleton.mp member]
        exact second
  | .compound _ lefts, .compound _ rights, same =>
      nanFreeAll_of_equal lefts rights (Bool.and_eq_true_iff.mp same).2
  | .list lefts, .list rights, same => nanFreeAll_of_equal lefts rights same

theorem nanFreeAll_of_equal :
    ∀ lefts rights : List Term, equalAll lefts rights = true →
      (∀ value ∈ numbersAll lefts, value.isNaN = false) ∧
        ∀ value ∈ numbersAll rights, value.isNaN = false
  | [], [], _ => ⟨fun _ member => absurd member List.not_mem_nil,
      fun _ member => absurd member List.not_mem_nil⟩
  | left :: lefts, right :: rights, same => by
      obtain ⟨first, rest⟩ := Bool.and_eq_true_iff.mp same
      have here := nanFree_of_equal left right first
      have there := nanFreeAll_of_equal lefts rights rest
      constructor
      · intro value member
        exact (List.mem_append.mp member).elim (here.1 value) (there.1 value)
      · intro value member
        exact (List.mem_append.mp member).elim (here.2 value) (there.2 value)

end

private theorem nanFree_var (name : String) : (Term.var name).NaNFree :=
  fun _ impossible => absurd impossible List.not_mem_nil

theorem equal_self {t : Term} (free : t.NaNFree) : t.equal t = true := (Alike.refl t).equal free

theorem Alike.nanFree {left right : Term} (alike : left.Alike right) (free : left.NaNFree) :
    right.NaNFree :=
  (nanFree_of_equal left right (alike.equal free)).2

private theorem NaNFree.of_subst {t : Term} (free : (t.subst image).NaNFree)
    (occurs : x ∈ t.occurrences) :
    (image x).NaNFree := by
  have each {ts : List Term} {t : Term} (inside : t ∈ ts)
      (all : ∀ value ∈ numbersAll (substAll image ts), value.isNaN = false) :
      (t.subst image).NaNFree := by
    rw [substAll_eq_map] at all
    exact NaNFree.of_mem_all all (List.mem_map_of_mem inside)
  induction t using nested with
  | var name =>
      rw [List.mem_singleton.mp occurs]
      exact free
  | atom | number | string => cases occurs
  | compound functor args ih =>
      obtain ⟨t, inside, here⟩ := mem_occurrencesAll.mp occurs
      exact ih t inside (each inside free) here
  | list items ih =>
      obtain ⟨t, inside, here⟩ := mem_occurrencesAll.mp occurs
      exact ih t inside (each inside free) here

private theorem confront_self {t : Term} (free : t.NaNFree) : t.confront t = .agree := by
  have all {ts : List Term} (each : ∀ t ∈ ts, t.confront t = .agree) :
      confrontAll ts ts = .agree := by
    induction ts with
    | nil => rfl
    | cons t ts ih =>
        rw [confrontAll, each t List.mem_cons_self]
        exact ih fun u inside => each u (List.mem_cons_of_mem t inside)
  induction t using nested with
  | var name => exact if_pos rfl
  | atom | number | string => exact if_pos (equal_self free)
  | compound functor args ih =>
      rw [confront, if_pos ⟨rfl, rfl⟩]
      exact all fun t inside => ih t inside (.of_mem_all free inside)
  | list items ih =>
      rw [confront, if_pos rfl]
      exact all fun t inside => ih t inside (.of_mem_all free inside)

/-- Terms with the same instance are unified already. -/
theorem unify_of_same {left right : Term} {s : Substitution} (same : left.apply s = right.apply s)
    (free : (right.apply s).NaNFree) : left.unify right s = some s := by
  have agree : Unification.confront [(right.apply s, right.apply s)] = .agree := by
    rw [Unification.confront, confront_self free]
    rfl
  change Unification.solve _ [(left.apply s, right.apply s)] s = some s
  rw [same]
  generalize (freeVarsAll [_, _]).length = fuel
  cases fuel with
  | zero => rw [Unification.solve, agree]
  | succ fuel => rw [Unification.solve, agree]

end Term

/-! ### Reading one list of equations after another -/

namespace Unification

variable {s : Substitution} {problem : Problem} {result other : Option Substitution}

theorem Reads.append {sound : Substitution → Prop} (reads : Reads sound problem s result)
    {more : Problem} (stops : result = none → other = none)
    (goesOn : ∀ m, result = some m → Reads sound more m other) :
    Reads sound (problem ++ more) s other := by
  induction reads with
  | done s => exact goesOn s rfl
  | settled now faces _ ih => exact .settled now faces (ih stops goesOn)
  | clash rest now faces =>
      rw [stops rfl]
      exact .clash (rest ++ more) now faces
  | circular rest now faces inside =>
      rw [stops rfl]
      exact .circular (rest ++ more) now faces inside
  | binding now faces outside _ ih => exact .binding now faces outside (ih stops goesOn)
  | parts now faces _ ih =>
      apply Reads.parts now faces
      have later := ih stops goesOn
      rw [List.append_assoc] at later
      exact later

theorem Reads.unique (reads : Reads Substitution.Acyclic problem s result)
    (again : Reads Substitution.Acyclic problem s other) : result = other := by
  obtain ⟨names, known⟩ := exists_mem_names (under s problem)
  rw [← reads.solve_eq names known (Nat.le_refl _)]
  exact again.solve_eq names known (Nat.le_refl _)

end Unification

namespace Substitution

variable {s t m : Substitution} {image : String → Term} {x : String}

/-! ### Bindings as equations -/

def equations (s : Substitution) : Unification.Problem :=
  s.bindings.map fun binding => (.var binding.1, binding.2)

/-- Replacing all variables makes the sides of every binding equal. -/
def SolvedBy (s : Substitution) (image : String → Term) : Prop :=
  ∀ x term, s.get? x = some term → (image x).equal (term.subst image) = true

private theorem get?_of_mem {term : Term} (member : (x, term) ∈ s.bindings) :
    s.get? x = some term := by
  obtain ⟨before, after, split⟩ := List.append_of_mem member
  have ascending := s.ascending
  rw [split, List.pairwise_append] at ascending
  apply List.lookup_eq_some_iff.mpr
  refine ⟨before, after, split, fun earlier inside => ?_⟩
  rw [bne_iff_ne]
  intro same
  have less := ascending.2.2 earlier inside _ List.mem_cons_self
  rw [same] at less
  exact String.lt_irrefl _ less

private theorem mem_equations {equation : Term × Term} : equation ∈ s.equations ↔
    ∃ x term, s.get? x = some term ∧ equation = (.var x, term) := by
  constructor
  · intro member
    obtain ⟨⟨x, term⟩, inside, rfl⟩ := List.mem_map.mp member
    exact ⟨x, term, get?_of_mem inside, rfl⟩
  · rintro ⟨x, term, found, rfl⟩
    exact List.mem_map_of_mem (mem_of_get? found)

theorem nanFree_empty : empty.NaNFree := by
  intro x term impossible
  cases impossible

theorem NaNFree.equations (free : s.NaNFree) : Unification.NaNFree s.equations := by
  intro equation member
  obtain ⟨x, term, found, rfl⟩ := mem_equations.mp member
  exact ⟨Term.nanFree_var x, free x term found⟩

theorem SolvedBy.holdsUnder (solved : s.SolvedBy image) : s.HoldsUnder image :=
  fun x term found => Term.alike_of_equal _ _ (solved x term found)

theorem SolvedBy.solves (solved : s.SolvedBy image) : Unification.Solves image s.equations := by
  intro equation member
  obtain ⟨x, term, found, rfl⟩ := mem_equations.mp member
  exact solved.holdsUnder x term found

private theorem SolvedBy.of_extends (solved : m.SolvedBy image) (kept : m.Extends s) :
    s.SolvedBy image :=
  fun x term found => solved x term (kept x term found)

private theorem Acyclic.solvedBy_value (acyclic : s.Acyclic) (free : s.NaNFree) :
    s.SolvedBy (s.value s.size) := by
  intro x term found
  have same : s.value s.size x = term.subst (s.value s.size) := acyclic.apply_of_bound found
  rw [same]
  exact Term.equal_self (free.apply acyclic (free x term found))

/-! ### Merging -/

private theorem reads_foldlM (acyclic : s.Acyclic) (bindings : List (String × Term)) :
    Unification.Reads Acyclic (bindings.map fun binding => (.var binding.1, binding.2)) s
      (bindings.foldlM (fun merged binding => (Term.var binding.1).unify binding.2 merged) s) := by
  induction bindings generalizing s with
  | nil => exact .done s
  | cons binding rest ih =>
      have first := Term.reads_unify acyclic (.var binding.1) binding.2
      rw [List.foldlM_cons]
      apply first.append
      · intro stopped
        rw [stopped]
        rfl
      · intro m found
        rw [found]
        exact ih (first.extends acyclic found).1

theorem combine_reads (acyclic : s.Acyclic) (t : Substitution) :
    Unification.Reads Acyclic t.equations s (s.combine t) := reads_foldlM acyclic t.bindings

/-- The variables that are bound in the end have images without NaN, being mentioned on one side or
the other of an equation that holds. -/
theorem SolvedBy.nanFree_image (acyclic : s.Acyclic) (solved : s.SolvedBy image)
    (alsoSolved : t.SolvedBy image) (merged : s.combine t = some m) (bound : x ∈ m.domain) :
    (image x).NaNFree := by
  have instances {u : Term} (free : (u.subst image).NaNFree)
      (occurs : x ∈ (u.apply s).occurrences) : (image x).NaNFree :=
    ((solved.holdsUnder.apply acyclic u).symm.nanFree free).of_subst occurs
  rcases (combine_reads acyclic t).mem_domain merged bound with earlier | ⟨equation, member, occurs⟩
  · obtain ⟨term, found⟩ := mem_domain_iff.mp earlier
    exact (Term.nanFree_of_equal _ _ (solved x term found)).1
  · obtain ⟨before, inside, rfl⟩ := List.mem_map.mp member
    obtain ⟨y, term, found, rfl⟩ := mem_equations.mp inside
    obtain ⟨first, second⟩ := Term.nanFree_of_equal _ _ (alsoSolved y term found)
    rcases occurs with occurs | occurs
    · exact instances (u := .var y) first occurs
    · exact instances second occurs

/-- Whatever solves both substitutions solves their merge. -/
theorem SolvedBy.combine (acyclic : s.Acyclic) (free : s.NaNFree) (otherFree : t.NaNFree)
    (solved : s.SolvedBy image) (alsoSolved : t.SolvedBy image) :
    ∃ m, s.combine t = some m ∧ m.SolvedBy image := by
  obtain ⟨m, merged, holds⟩ := (combine_reads acyclic t).holdsUnder free otherFree.equations
    solved.holdsUnder alsoSolved.solves
  refine ⟨m, merged, fun x term found => ?_⟩
  apply (holds x term found).equal
  exact solved.nanFree_image acyclic alsoSolved merged (mem_domain_iff.mpr ⟨term, found⟩)

theorem holdsUnder_of_combine (acyclic : s.Acyclic) (merged : s.combine t = some m) :
    t.HoldsUnder (m.value m.size) :=
  fun x term found => (combine_reads acyclic t).solves acyclic merged (.var x, term)
    (mem_equations.mpr ⟨x, term, found, rfl⟩)

/-- A merge solves both substitutions. -/
theorem solvedBy_of_combine (acyclic : s.Acyclic) (free : s.NaNFree) (otherFree : t.NaNFree)
    (merged : s.combine t = some m) :
    s.SolvedBy (m.value m.size) ∧ t.SolvedBy (m.value m.size) := by
  have reads := combine_reads acyclic t
  obtain ⟨last, kept⟩ := reads.extends acyclic merged
  have lastFree := reads.nanFree free otherFree.equations merged
  constructor
  · exact (last.solvedBy_value lastFree).of_extends kept
  · intro x term found
    apply (holdsUnder_of_combine acyclic merged x term found).equal
    have value : ((Term.var x).apply m).NaNFree := lastFree.apply last (Term.nanFree_var x)
    exact value

private theorem combine_eq_none_iff (acyclic : s.Acyclic) (free : s.NaNFree)
    (otherFree : t.NaNFree) :
    s.combine t = none ↔ ¬ ∃ image, s.SolvedBy image ∧ t.SolvedBy image := by
  constructor
  · rintro nothing ⟨image, solved, alsoSolved⟩
    obtain ⟨m, merged, _⟩ := solved.combine acyclic free otherFree alsoSolved
    rw [nothing] at merged
    cases merged
  · intro unsolvable
    cases merged : s.combine t with
    | none => rfl
    | some m => exact absurd ⟨_, solvedBy_of_combine acyclic free otherFree merged⟩ unsolvable

private theorem combine_self (acyclic : s.Acyclic) (free : s.NaNFree) : s.combine s = some s := by
  have all (bindings : List (String × Term)) (own : ∀ binding ∈ bindings, binding ∈ s.bindings) :
      bindings.foldlM (fun merged binding => (Term.var binding.1).unify binding.2 merged) s =
        some s := by
    induction bindings with
    | nil => rfl
    | cons binding rest ih =>
        have found := get?_of_mem (own binding List.mem_cons_self)
        have same := acyclic.apply_of_bound found
        rw [List.foldlM_cons, Term.unify_of_same same (free.apply acyclic (free _ _ found))]
        exact ih fun later inside => own later (List.mem_cons_of_mem binding inside)
  exact all s.bindings fun _ => id

end Substitution

/-- Merging comes to an end, even if the other substitution leads in a circle: reading its bindings
without a bound gives the merge and nothing else, and under way no variable ever reaches itself.
The merge keeps the first substitution and solves the other one, and all that solves the two solves
it. It fails just when nothing solves the two. -/
theorem combine_solves {s t : Substitution} (acyclic : s.Acyclic) (free : s.NaNFree)
    (otherFree : t.NaNFree) :
    (∀ result, Unification.Reads (fun _ => True) t.equations s result ↔ result = s.combine t) ∧
    Unification.Reads Substitution.Acyclic t.equations s (s.combine t) ∧
    (∀ m, s.combine t = some m →
      m.Acyclic ∧ (∀ x term, s.get? x = some term → m.get? x = some term) ∧
      (∀ x term, t.get? x = some term →
        (Term.var x).Resolves m ((Term.var x).apply m) ∧ term.Resolves m (term.apply m) ∧
        ((Term.var x).apply m).equal (term.apply m) = true) ∧
      ∀ image, s.SolvedBy image → t.SolvedBy image → m.SolvedBy image) ∧
    (s.combine t = none ↔ ¬ ∃ image, s.SolvedBy image ∧ t.SolvedBy image) ∧
    (t.Acyclic → ((s.combine t).isSome = true ↔ (t.combine s).isSome = true)) ∧
    s.combine s = some s := by
  have reads := Substitution.combine_reads acyclic t
  refine ⟨fun result => ?_, reads, fun m merged => ?_,
    Substitution.combine_eq_none_iff acyclic free otherFree, fun otherAcyclic => ?_,
    Substitution.combine_self acyclic free⟩
  · constructor
    · intro other
      exact (other.stays_acyclic acyclic).unique reads
    · rintro rfl
      exact reads.mono fun _ _ => trivial
  · obtain ⟨last, kept⟩ := reads.extends acyclic merged
    refine ⟨last, kept, fun x term found => ?_, fun image solved alsoSolved => ?_⟩
    · have equal := (Substitution.solvedBy_of_combine acyclic free otherFree merged).2 x term found
      exact ⟨Term.resolves_of_acyclic last _, Term.resolves_of_acyclic last _, equal⟩
    · obtain ⟨n, again, holds⟩ := solved.combine acyclic free otherFree alsoSolved
      rw [merged] at again
      cases again
      exact holds
  · have same : s.combine t = none ↔ t.combine s = none := by
      rw [Substitution.combine_eq_none_iff acyclic free otherFree,
        Substitution.combine_eq_none_iff otherAcyclic otherFree free]
      simp only [and_comm]
    rw [Option.isSome_iff_ne_none, Option.isSome_iff_ne_none, ne_eq, ne_eq, same]

def packing : Substitution :=
  Substitution.empty.bind "Box" (.compound "box" [.var "Item", .number .zero])

/-- The box of `packing`, with a thing whose weight is the negative zero, and an item that is known
only by another one, which is known only by the item. -/
def exchanging : Substitution :=
  ((Substitution.empty.bind "Box"
    (.compound "box" [.var "Thing", .number (.ofWord (Nat.pow 2 63))])).bind
      "Item" (.var "Other")).bind "Other" (.var "Item")

theorem combine_solves_of_packing :
    packing.Acyclic ∧ ¬ exchanging.Acyclic ∧ packing.NaNFree ∧ exchanging.NaNFree ∧
    ∃ m, packing.combine exchanging = some m ∧ m.domain = ["Box", "Item", "Thing"] ∧ m.Acyclic ∧
      (∀ x term, exchanging.get? x = some term →
        ((Term.var x).apply m).equal (term.apply m) = true) ∧
      packing.combine packing = some packing := by
  have acyclic : packing.Acyclic := by
    apply Substitution.acyclic_empty.bind
    · exact List.not_mem_nil
    · decide
  have circle : ¬ exchanging.Acyclic := by
    intro acyclic
    have there : exchanging.Leads "Item" "Other" := ⟨.var "Other", rfl, List.mem_cons_self⟩
    have back : exchanging.Leads "Other" "Item" := ⟨.var "Item", rfl, List.mem_cons_self⟩
    exact acyclic "Item" (.tail (.single there) back)
  have free : packing.NaNFree := Substitution.nanFree_empty.bind (by decide +kernel)
  have otherFree : exchanging.NaNFree :=
    ((Substitution.nanFree_empty.bind (by decide +kernel)).bind (by decide)).bind (by decide)
  have bound : (packing.combine exchanging).map Substitution.domain =
      some ["Box", "Item", "Thing"] := by decide +kernel
  obtain ⟨m, merged, domain⟩ := Option.map_eq_some_iff.mp bound
  obtain ⟨_, _, found, _, _, self⟩ := combine_solves acyclic free otherFree
  obtain ⟨last, _, solved, _⟩ := found m merged
  exact ⟨acyclic, circle, free, otherFree, m, merged, domain, last,
    fun x term here => (solved x term here).2.2, self⟩

end CognitiveAgent
