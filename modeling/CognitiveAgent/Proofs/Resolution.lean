import CognitiveAgent.Program.Module
import CognitiveAgent.Proofs.Acyclicity

/-!
Instantiation as resolution. Where no variable reaches itself, what is left of the variables of a
term are the unbound ones at the ends of its chains, and instantiating again, or under further
bindings, makes no difference to what has been reached already. Main statement: this holds of terms
and of all that is made up of terms, up to whole combos.
-/

set_option autoImplicit false

namespace CognitiveAgent

namespace Substitution

variable {s m : Substitution} {x y : String}

inductive Reaches (s : Substitution) : String → String → Prop where
  | here (x : String) : Reaches s x x
  | step {x y z : String} (leads : s.Leads x y) (onward : Reaches s y z) : Reaches s x z

theorem Reaches.eq_of_unbound (reaches : s.Reaches x y) (unbound : s.get? x = none) : y = x := by
  cases reaches with
  | here => rfl
  | step leads onward =>
      obtain ⟨term, found, _⟩ := leads
      rw [unbound] at found
      cases found

/-- Following the chains of a variable comes to the unbound variables that it reaches. -/
theorem Acyclic.mem_occurrences_var (acyclic : s.Acyclic) :
    y ∈ ((Term.var x).apply s).occurrences ↔ y ∉ s.domain ∧ s.Reaches x y := by
  induction x using acyclic.induction with
  | step x ih =>
      cases found : s.get? x with
      | none =>
          rw [apply_of_unbound found]
          constructor
          · intro occurs
            rw [List.mem_singleton.mp occurs]
            exact ⟨get?_eq_none_iff.mp found, .here x⟩
          · rintro ⟨_, reaches⟩
            rw [reaches.eq_of_unbound found]
            exact List.mem_singleton_self x
      | some term =>
          rw [acyclic.apply_of_bound found]
          constructor
          · intro occurs
            obtain ⟨z, inside, later⟩ := (Term.mem_occurrences_subst _ term).mp occurs
            have leads : s.Leads x z := ⟨term, found, inside⟩
            obtain ⟨unbound, reaches⟩ := (ih z leads).mp later
            exact ⟨unbound, .step leads reaches⟩
          · rintro ⟨unbound, reaches⟩
            cases reaches with
            | here => exact absurd (mem_domain_iff.mpr ⟨term, found⟩) unbound
            | @step _ z _ leads onward =>
                obtain ⟨bound, same, inside⟩ := leads
                rw [found] at same
                cases same
                apply (Term.mem_occurrences_subst _ term).mpr
                exact ⟨z, inside, (ih z ⟨term, found, inside⟩).mpr ⟨unbound, onward⟩⟩

private theorem Acyclic.mem_freeVarsAll_apply (acyclic : s.Acyclic) {ts : List Term} :
    x ∈ Term.freeVarsAll (ts.map (·.apply s)) ↔
      x ∉ s.domain ∧ ∃ y ∈ Term.freeVarsAll ts, s.Reaches y x := by
  simp only [Term.mem_freeVarsAll]
  constructor
  · rintro ⟨_, member, occurs⟩
    obtain ⟨t, inside, rfl⟩ := List.mem_map.mp member
    obtain ⟨y, here, later⟩ := (Term.mem_occurrences_subst _ t).mp occurs
    obtain ⟨unbound, reaches⟩ := acyclic.mem_occurrences_var.mp later
    exact ⟨unbound, y, ⟨t, inside, here⟩, reaches⟩
  · rintro ⟨unbound, y, ⟨t, inside, here⟩, reaches⟩
    have later := acyclic.mem_occurrences_var.mpr ⟨unbound, reaches⟩
    have occurs := (Term.mem_occurrences_subst _ t).mpr ⟨y, here, later⟩
    exact ⟨t.apply s, List.mem_map_of_mem inside, occurs⟩

/-- What instantiating does to something with variables. -/
structure Instantiates {α : Type} (s : Substitution) (vars : α → List String)
    (apply : α → Substitution → α) (a : α) : Prop where
  unbound : ∀ x ∈ vars (apply a s), x ∉ s.domain
  fixed : apply (apply a s) s = apply a s
  remaining : ∀ x, x ∈ vars (apply a s) ↔ x ∉ s.domain ∧ ∃ y ∈ vars a, s.Reaches y x
  closed : vars (apply a s) = [] ↔ ¬ ∃ x, x ∉ s.domain ∧ ∃ y ∈ vars a, s.Reaches y x
  through : ∀ m : Substitution, m.Acyclic → m.Extends s → apply (apply a s) m = apply a m

/-- All of it follows if the variables are those of some terms that are instantiated one by one, and
if further bindings may be left for later. -/
theorem Acyclic.instantiates {α : Type} {vars : α → List String} {apply : α → Substitution → α}
    {a : α} (acyclic : s.Acyclic) (ts : List Term) (before : vars a = Term.freeVarsAll ts)
    (after : vars (apply a s) = Term.freeVarsAll (ts.map (·.apply s)))
    (through : ∀ m : Substitution, m.Acyclic → m.Extends s → apply (apply a s) m = apply a m) :
    s.Instantiates vars apply a := by
  have remaining (x : String) :
      x ∈ vars (apply a s) ↔ x ∉ s.domain ∧ ∃ y ∈ vars a, s.Reaches y x := by
    rw [before, after]
    exact acyclic.mem_freeVarsAll_apply
  constructor
  · intro x member
    exact ((remaining x).mp member).1
  · exact through s acyclic (.refl s)
  · exact remaining
  · rw [List.eq_nil_iff_forall_not_mem, not_exists]
    exact forall_congr' fun x => not_congr (remaining x)
  · exact through

end Substitution

namespace Term

private theorem freeVarsAll_singleton (t : Term) : freeVarsAll [t] = t.freeVars := by
  simp [freeVarsAll, freeVars, occurrencesAll]

end Term

/-! ### What is made up of terms -/

def Action.target? : Action → Option CallTarget
  | .call target _ _ => some target
  | .user _ | .mental _ => none

section Instances

variable (s : Substitution)

theorem Condition.terms_apply (c : Condition) : (c.apply s).terms = c.terms.map (·.apply s) := by
  simp [Condition.terms, Condition.apply, Literal.apply]

theorem Effect.terms_apply (e : Effect) : (e.apply s).terms = e.terms.map (·.apply s) := by
  cases e <;> rfl

theorem Action.terms_apply (a : Action) : (a.apply s).terms = a.terms.map (·.apply s) := by
  cases a with
  | user action =>
      simp [Action.apply, UserAction.apply, Action.terms, Condition.terms_apply,
        Effect.terms_apply, List.flatMap_map, List.map_flatMap]
  | call target params source => rfl
  | mental action => cases action <;> rfl

private theorem Action.target?_apply (a : Action) : (a.apply s).target? = a.target? := by
  cases a <;> rfl

theorem Combo.terms_apply (combo : List Action) :
    Combo.terms (Combo.apply combo s) = (Combo.terms combo).map (·.apply s) := by
  simp [Combo.terms, Combo.apply, List.flatMap_map, List.map_flatMap, Action.terms_apply]

end Instances

section Through

variable {s m : Substitution} (kept : m.Extends s) (acyclic : m.Acyclic)
  (acyclicBefore : s.Acyclic)
include kept acyclic acyclicBefore

theorem Condition.apply_apply (c : Condition) : (c.apply s).apply m = c.apply m := by
  simp only [Condition.apply, Literal.apply, List.map_map, Function.comp_def,
    kept.apply_apply acyclic acyclicBefore]

theorem UserAction.apply_apply (a : UserAction) : (a.apply s).apply m = a.apply m := by
  have effects (e : Effect) : (e.apply s).apply m = e.apply m := by
    cases e <;> simp only [Effect.apply, kept.apply_apply acyclic acyclicBefore]
  simp only [UserAction.apply, List.map_map, Function.comp_def, effects,
    Condition.apply_apply kept acyclic acyclicBefore, kept.apply_apply acyclic acyclicBefore]

theorem Action.apply_apply (a : Action) : (a.apply s).apply m = a.apply m := by
  cases a with
  | user action =>
      simp only [Action.apply, UserAction.apply_apply kept acyclic acyclicBefore]
  | call target params source =>
      simp only [Action.apply, List.map_map, Function.comp_def,
        kept.apply_apply acyclic acyclicBefore]
  | mental action =>
      cases action <;>
        simp only [Action.apply, MentalAction.apply, kept.apply_apply acyclic acyclicBefore]

theorem Combo.apply_apply (combo : List Action) :
    Combo.apply (Combo.apply combo s) m = Combo.apply combo m := by
  simp only [Combo.apply, List.map_map, Function.comp_def,
    Action.apply_apply kept acyclic acyclicBefore]

end Through

/-- Where no variable reaches itself, instantiating a term comes to an end, with nothing but what
the chains of its variables lead to. Of the variables those are left that the chains end with. Doing
it again changes nothing, and neither does doing it before more bindings are made. The same holds of
conditions, actions and combos, each of whose terms is instantiated, while the modules that they
call stay as they are. -/
theorem resolution {s : Substitution} (acyclic : s.Acyclic) :
    (∀ t : Term, (∀ result, t.Resolves s result ↔ result = t.apply s) ∧
      s.Instantiates Term.freeVars Term.apply t ∧
      ((t.apply s).isClosed = true ↔ (t.apply s).freeVars = [])) ∧
    (∀ c : Condition, (c.apply s).terms = c.terms.map (·.apply s) ∧
      s.Instantiates (fun c => Term.freeVarsAll c.terms) Condition.apply c ∧
      s.Instantiates Condition.freeVars Condition.apply c) ∧
    (∀ a : Action, (a.apply s).terms = a.terms.map (·.apply s) ∧
      s.Instantiates (fun a => Term.freeVarsAll a.terms) Action.apply a ∧
      (a.apply s).target? = a.target?) ∧
    ∀ combo : List Action, Combo.terms (Combo.apply combo s) = (Combo.terms combo).map (·.apply s) ∧
      s.Instantiates (fun combo => Term.freeVarsAll (Combo.terms combo)) Combo.apply combo ∧
      (Combo.apply combo s).map Action.target? = combo.map Action.target? := by
  refine ⟨fun t => ⟨Term.resolves_iff acyclic t, ?_, Term.isClosed_iff_freeVars⟩,
    fun c => ⟨c.terms_apply s, ?_, ?_⟩, fun a => ⟨a.terms_apply s, ?_, a.target?_apply s⟩,
    fun combo => ⟨Combo.terms_apply s combo, ?_, ?_⟩⟩
  · apply acyclic.instantiates [t]
    · exact (Term.freeVarsAll_singleton t).symm
    · exact (Term.freeVarsAll_singleton (t.apply s)).symm
    · exact fun m last kept => kept.apply_apply last acyclic t
  · apply acyclic.instantiates c.terms
    · rfl
    · exact congrArg Term.freeVarsAll (c.terms_apply s)
    · exact fun m last kept => Condition.apply_apply kept last acyclic c
  · apply acyclic.instantiates ((c.literals.filter (·.positive)).map (·.formula))
    · rfl
    · simp only [Condition.freeVars, Condition.apply, List.filter_map, List.map_map]
      rfl
    · exact fun m last kept => Condition.apply_apply kept last acyclic c
  · apply acyclic.instantiates a.terms
    · rfl
    · exact congrArg Term.freeVarsAll (a.terms_apply s)
    · exact fun m last kept => Action.apply_apply kept last acyclic a
  · apply acyclic.instantiates (Combo.terms combo)
    · rfl
    · exact congrArg Term.freeVarsAll (Combo.terms_apply s combo)
    · exact fun m last kept => Combo.apply_apply kept last acyclic combo
  · simp only [Combo.apply, List.map_map, Function.comp_def, Action.target?_apply]

def tripping : Substitution :=
  (Substitution.empty.bind "Trip" (.compound "trip" [.var "From", .var "To"])).bind
    "From" (.atom "depot")

theorem resolution_of_tripping :
    tripping.Acyclic ∧
    (Term.var "Trip").Resolves tripping (.compound "trip" [.atom "depot", .var "To"]) ∧
    (∀ x, x ∈ ((Term.var "Trip").apply tripping).freeVars ↔
      x ∉ tripping.domain ∧ ∃ y ∈ (Term.var "Trip").freeVars, tripping.Reaches y x) ∧
    ((Term.var "Trip").apply tripping).freeVars = ["To"] := by
  have acyclic : tripping.Acyclic := by
    apply Substitution.Acyclic.bind
    · apply Substitution.acyclic_empty.bind
      · exact List.not_mem_nil
      · decide
    · decide
    · intro y impossible
      cases impossible
  obtain ⟨resolves, instantiates, _⟩ := (resolution acyclic).1 (.var "Trip")
  exact ⟨acyclic, (resolves _).mpr rfl, instantiates.remaining, rfl⟩

end CognitiveAgent
