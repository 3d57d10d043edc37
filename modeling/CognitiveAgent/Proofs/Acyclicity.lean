import CognitiveAgent.Proofs.ClosedTerms

/-!
Substitutions in which no variable reaches itself. There a chain of bindings has no more links than
there are bindings, so that instantiating a term follows every chain to its end, however the chains
are followed. Main statements: instantiating is the only way of replacing variables that agrees with
all bindings; it leaves no bound variable; and one more binding, of a variable that is not bound yet,
amounts to a replacement in what has been instantiated before.
-/

set_option autoImplicit false

namespace CognitiveAgent

/-! ### Replacing all variables at once -/

namespace Term

/-- Induction on terms, over all members of a list of arguments. -/
theorem nested {motive : Term → Prop} (var : ∀ name, motive (.var name))
    (atom : ∀ name, motive (.atom name)) (number : ∀ value, motive (.number value))
    (string : ∀ value, motive (.string value))
    (compound : ∀ functor args, (∀ t ∈ args, motive t) → motive (.compound functor args))
    (list : ∀ items, (∀ t ∈ items, motive t) → motive (.list items)) (t : Term) : motive t := by
  refine @Term.rec motive (fun ts => ∀ t ∈ ts, motive t) var atom number string compound list ?_ ?_ t
  · intro t impossible
    cases impossible
  · intro head tail first others t inside
    rcases List.mem_cons.mp inside with rfl | later
    · exact first
    · exact others t later

variable {image other : String → Term}

private theorem subst_congr {t : Term} (same : ∀ x ∈ t.occurrences, image x = other x) :
    t.subst image = t.subst other := by
  induction t using nested with
  | var name => exact same name List.mem_cons_self
  | atom | number | string => rfl
  | compound functor args ih =>
      simp only [subst, substAll_eq_map, compound.injEq, true_and]
      apply List.map_congr_left
      intro t inside
      exact ih t inside fun x occurs => same x (mem_occurrencesAll.mpr ⟨t, inside, occurs⟩)
  | list items ih =>
      simp only [subst, substAll_eq_map, list.injEq]
      apply List.map_congr_left
      intro t inside
      exact ih t inside fun x occurs => same x (mem_occurrencesAll.mpr ⟨t, inside, occurs⟩)

theorem subst_subst (t : Term) :
    (t.subst image).subst other = t.subst fun x => (image x).subst other := by
  induction t using nested with
  | var | atom | number | string => rfl
  | compound functor args ih =>
      simp only [subst, substAll_eq_map, List.map_map, compound.injEq, true_and]
      exact List.map_congr_left ih
  | list items ih =>
      simp only [subst, substAll_eq_map, List.map_map, list.injEq]
      exact List.map_congr_left ih

theorem subst_var (t : Term) : t.subst .var = t := by
  induction t using nested with
  | var | atom | number | string => rfl
  | compound functor args ih =>
      simp only [subst, substAll_eq_map, compound.injEq, true_and]
      exact (List.map_congr_left ih).trans (List.map_id _)
  | list items ih =>
      simp only [subst, substAll_eq_map, list.injEq]
      exact (List.map_congr_left ih).trans (List.map_id _)

private theorem subst_of_fixed {t : Term} (fixed : ∀ x ∈ t.occurrences, image x = .var x) :
    t.subst image = t :=
  (subst_congr fixed).trans (subst_var t)

theorem occurs_iff {name : String} {t : Term} : t.occurs name = true ↔ name ∈ t.occurrences :=
  List.contains_iff_mem

end Term

namespace Substitution

private theorem lookup_place (name : String) (term : Term) (bindings : List (String × Term))
    (x : String) :
    (place name term bindings).lookup x = if x = name then some term else bindings.lookup x := by
  induction bindings with
  | nil =>
      by_cases same : x = name
      · simp [place, same]
      · simp [place, same]
  | cons first rest ih =>
      obtain ⟨key, bound⟩ := first
      unfold place
      by_cases same : x = name
      · subst same
        split
        · simp
        · split
          · simp
          · rename_i other
            simp [List.lookup_cons, beq_false_of_ne other, ih]
      · split
        · simp [List.lookup_cons, beq_false_of_ne same]
        · split
          · rename_i replaced
            obtain rfl : name = key := replaced
            simp [List.lookup_cons, beq_false_of_ne same]
          · simp [List.lookup_cons, same, ih]

theorem get?_bind (s : Substitution) (name x : String) (term : Term) :
    (s.bind name term).get? x = if x = name then some term else s.get? x :=
  lookup_place name term s.bindings x

theorem mem_domain_iff {s : Substitution} {x : String} :
    x ∈ s.domain ↔ ∃ term, s.get? x = some term := by
  cases found : s.get? x with
  | none => simp [get?_eq_none_iff.mp found]
  | some term => simp [domain, List.mem_map_of_mem (mem_of_get? found) (f := Prod.fst)]

/-! ### Chains -/

def Leads (s : Substitution) (x y : String) : Prop :=
  ∃ term, s.get? x = some term ∧ y ∈ term.occurrences

def Acyclic (s : Substitution) : Prop := ∀ x, ¬ Relation.TransGen s.Leads x x

/-- No chain of bindings that starts at the variable has more links than the number says. -/
def EndsWithin (s : Substitution) : Nat → String → Prop
  | 0, x => s.get? x = none
  | links + 1, x => ∀ y, s.Leads x y → s.EndsWithin links y

variable {s m : Substitution} {x : String}

private theorem endsWithin_of_unbound (unbound : s.get? x = none) (links : Nat) :
    s.EndsWithin links x := by
  cases links with
  | zero => exact unbound
  | succ links =>
      rintro y ⟨term, found, _⟩
      rw [unbound] at found
      cases found

theorem EndsWithin.reached {links : Nat} (ends : s.EndsWithin links x) {y : String}
    (reaches : Relation.TransGen s.Leads x y) : ∃ fewer, fewer < links ∧ s.EndsWithin fewer y := by
  have step {links : Nat} {x y : String} (ends : s.EndsWithin links x) (leads : s.Leads x y) :
      ∃ fewer, fewer < links ∧ s.EndsWithin fewer y := by
    cases links with
    | zero =>
        obtain ⟨term, found, _⟩ := leads
        rw [EndsWithin, found] at ends
        cases ends
    | succ fewer => exact ⟨fewer, Nat.lt_succ_self fewer, ends y leads⟩
  induction reaches with
  | single leads => exact step ends leads
  | tail _ leads ih =>
      obtain ⟨fewer, less, later⟩ := ih
      obtain ⟨fewest, least, last⟩ := step later leads
      exact ⟨fewest, Nat.lt_trans least less, last⟩

private theorem EndsWithin.not_cyclic {links : Nat} (ends : s.EndsWithin links x) :
    ¬ Relation.TransGen s.Leads x x := by
  intro reaches
  -- Going around once leaves fewer links for the same variable.
  induction links using Nat.strongRecOn with
  | ind links ih =>
      obtain ⟨fewer, less, later⟩ := ends.reached reaches
      exact ih fewer less later

private theorem endsWithin_length (names : List String) {links : Nat}
    (enough : names.length ≤ links) (away : ¬ Relation.TransGen s.Leads x x)
    (onward : ∀ y, Relation.TransGen s.Leads x y → ¬ Relation.TransGen s.Leads y y)
    (here : x ∈ s.domain → x ∈ names)
    (later : ∀ y, Relation.TransGen s.Leads x y → y ∈ s.domain → y ∈ names) :
    s.EndsWithin links x := by
  -- The names are those of the bound variables that a chain may still come to.
  induction links generalizing names x with
  | zero =>
      have none : names = [] := List.length_eq_zero_iff.mp (Nat.le_zero.mp enough)
      rw [EndsWithin, get?_eq_none_iff]
      intro member
      have impossible := here member
      rw [none] at impossible
      cases impossible
  | succ links ih =>
      intro y leads
      have member : x ∈ names := by
        obtain ⟨term, found, _⟩ := leads
        exact here (mem_domain_iff.mpr ⟨term, found⟩)
      have remains {z : String} (reaches : Relation.TransGen s.Leads x z) (bound : z ∈ s.domain) :
          z ∈ names.erase x := by
        have other : z ≠ x := by
          rintro rfl
          exact away reaches
        exact (List.mem_erase_of_ne other).mpr (later z reaches bound)
      apply ih (names.erase x)
      · rw [List.length_erase_of_mem member]
        omega
      · exact onward y (.single leads)
      · intro z reaches
        exact onward z ((Relation.TransGen.single leads).trans reaches)
      · exact remains (.single leads)
      · intro z reaches
        exact remains ((Relation.TransGen.single leads).trans reaches)

private theorem endsWithin_size (away : ¬ Relation.TransGen s.Leads x x)
    (onward : ∀ y, Relation.TransGen s.Leads x y → ¬ Relation.TransGen s.Leads y y) :
    s.EndsWithin s.size x := by
  apply endsWithin_length s.domain
  · exact Nat.le_of_eq (List.length_map _)
  · exact away
  · exact onward
  · exact id
  · exact fun _ _ => id

theorem Acyclic.endsWithin (acyclic : s.Acyclic) (x : String) : s.EndsWithin s.size x :=
  endsWithin_size (acyclic x) fun y _ => acyclic y

/-- A chain that ends has no more links than there are bindings. -/
theorem EndsWithin.within_size {links : Nat} (ends : s.EndsWithin links x) :
    s.EndsWithin s.size x := by
  apply endsWithin_size ends.not_cyclic
  intro y reaches
  obtain ⟨fewer, _, later⟩ := ends.reached reaches
  exact later.not_cyclic

theorem acyclic_of_endsWithin (ends : ∀ x, ∃ links, s.EndsWithin links x) : s.Acyclic := by
  intro x
  obtain ⟨links, within⟩ := ends x
  exact within.not_cyclic

theorem Acyclic.induction (acyclic : s.Acyclic) {motive : String → Prop}
    (step : ∀ x, (∀ y, s.Leads x y → motive y) → motive x) (x : String) : motive x := by
  have within (links : Nat) : ∀ x, s.EndsWithin links x → motive x := by
    induction links with
    | zero =>
        intro x unbound
        apply step
        rintro y ⟨term, found, _⟩
        rw [EndsWithin, found] at unbound
        cases unbound
    | succ links ih =>
        intro x ends
        apply step
        intro y leads
        exact ih y (ends y leads)
  exact within s.size x (acyclic.endsWithin x)

theorem acyclic_empty : empty.Acyclic := acyclic_of_endsWithin fun _ => ⟨0, rfl⟩

theorem IsClosed.acyclic (closed : s.IsClosed) : s.Acyclic := by
  have nowhere (x y : String) : ¬ s.Leads x y := by
    rintro ⟨term, found, occurs⟩
    exact Term.isClosed_iff_not_mem.mp (isClosed_of_get? closed found) y occurs
  intro x around
  cases around with
  | single last => exact nowhere x x last
  | tail _ last => exact nowhere _ x last

/-! ### Instantiation -/

private theorem EndsWithin.value_succ {links : Nat} (ends : s.EndsWithin links x) :
    s.value (links + 1) x = s.value links x := by
  induction links generalizing x with
  | zero =>
      rw [EndsWithin] at ends
      simp [value, ends]
  | succ links ih =>
      cases found : s.get? x with
      | none => simp [value, found]
      | some term =>
          have further : s.value (links + 2) x = term.subst (s.value (links + 1)) := by
            rw [value, found]
          have here : s.value (links + 1) x = term.subst (s.value links) := by
            rw [value, found]
          rw [further, here]
          apply Term.subst_congr
          intro y occurs
          exact ih (ends y ⟨term, found, occurs⟩)

theorem apply_of_unbound (unbound : s.get? x = none) : (Term.var x).apply s = .var x := by
  change s.value s.size x = .var x
  cases s.size with
  | zero => rfl
  | succ fuel => simp [value, unbound]

theorem Acyclic.apply_of_bound (acyclic : s.Acyclic) {term : Term} (found : s.get? x = some term) :
    (Term.var x).apply s = term.apply s := by
  change s.value s.size x = term.subst (s.value s.size)
  rw [← (acyclic.endsWithin x).value_succ, value, found]

/-- Replacing variables in agreement with all bindings is instantiating. -/
theorem Acyclic.subst_eq_apply (acyclic : s.Acyclic) {image : String → Term}
    (unbound : ∀ x, s.get? x = none → image x = .var x)
    (bound : ∀ x term, s.get? x = some term → image x = term.subst image) (t : Term) :
    t.subst image = t.apply s := by
  have value (x : String) : image x = (Term.var x).apply s := by
    induction x using acyclic.induction with
    | step x ih =>
        cases found : s.get? x with
        | none => rw [unbound x found, apply_of_unbound found]
        | some term =>
            rw [bound x term found, acyclic.apply_of_bound found]
            apply Term.subst_congr
            intro y occurs
            exact ih y ⟨term, found, occurs⟩
  exact Term.subst_congr fun x _ => value x

theorem apply_of_fresh {t : Term} (fresh : ∀ x ∈ t.occurrences, x ∉ s.domain) : t.apply s = t := by
  apply Term.subst_of_fixed
  intro x occurs
  exact apply_of_unbound (get?_eq_none_iff.mpr (fresh x occurs))

theorem EndsWithin.not_mem_domain {links : Nat} (ends : s.EndsWithin links x) {y : String}
    (occurs : y ∈ (s.value links x).occurrences) : y ∉ s.domain := by
  induction links generalizing x with
  | zero =>
      rw [List.mem_singleton.mp occurs]
      exact get?_eq_none_iff.mp ends
  | succ links ih =>
      cases found : s.get? x with
      | none =>
          rw [value, found] at occurs
          rw [List.mem_singleton.mp occurs]
          exact get?_eq_none_iff.mp found
      | some term =>
          rw [value, found] at occurs
          obtain ⟨z, here, later⟩ := (Term.mem_occurrences_subst _ term).mp occurs
          exact ih (ends z ⟨term, found, here⟩) later

theorem Acyclic.not_mem_domain (acyclic : s.Acyclic) {t : Term} {y : String}
    (occurs : y ∈ (t.apply s).occurrences) : y ∉ s.domain := by
  obtain ⟨x, _, inside⟩ := (Term.mem_occurrences_subst _ t).mp occurs
  exact (acyclic.endsWithin x).not_mem_domain inside

def Extends (m s : Substitution) : Prop := ∀ x term, s.get? x = some term → m.get? x = some term

theorem Extends.refl (s : Substitution) : s.Extends s := fun _ _ found => found

theorem Extends.trans {n : Substitution} (later : n.Extends m) (earlier : m.Extends s) :
    n.Extends s :=
  fun x term found => later x term (earlier x term found)

theorem extends_bind (unbound : x ∉ s.domain) (term : Term) : (s.bind x term).Extends s := by
  intro y bound found
  rw [get?_bind, if_neg, found]
  rintro rfl
  exact unbound (mem_domain_iff.mpr ⟨bound, found⟩)

/-- Instantiating under fewer bindings first makes no difference. -/
theorem Extends.apply_apply (kept : m.Extends s) (acyclic : m.Acyclic)
    (acyclicBefore : s.Acyclic) (t : Term) : (t.apply s).apply m = t.apply m := by
  have whole (t : Term) : (t.apply s).apply m = t.subst fun x => ((Term.var x).apply s).apply m :=
    Term.subst_subst t
  have value (x : String) : ((Term.var x).apply s).apply m = (Term.var x).apply m := by
    induction x using acyclicBefore.induction with
    | step x ih =>
        cases found : s.get? x with
        | none => rw [apply_of_unbound found]
        | some term =>
            rw [acyclicBefore.apply_of_bound found, whole,
              acyclic.apply_of_bound (kept x term found)]
            apply Term.subst_congr
            intro y occurs
            exact ih y ⟨term, found, occurs⟩
  rw [whole]
  exact Term.subst_congr fun x _ => value x

/-! ### One more binding -/

section Binding

variable {term : Term} (acyclic : s.Acyclic) (unbound : x ∉ s.domain)
  (fresh : ∀ y ∈ term.occurrences, y ∉ s.domain ∧ y ≠ x)
include acyclic unbound fresh

theorem Acyclic.bind : (s.bind x term).Acyclic := by
  apply acyclic_of_endsWithin
  intro y
  -- Every chain may have become longer by the link from `x`, which is then its last one.
  have longer (links : Nat) : ∀ y, s.EndsWithin links y →
      (s.bind x term).EndsWithin (links + 1) y := by
    have fromNew (links : Nat) : (s.bind x term).EndsWithin (links + 1) x := by
      rintro z ⟨bound, found, occurs⟩
      rw [get?_bind, if_pos rfl] at found
      cases found
      apply endsWithin_of_unbound
      rw [get?_bind, if_neg (fresh z occurs).2]
      exact get?_eq_none_iff.mpr (fresh z occurs).1
    induction links with
    | zero =>
        intro y free
        by_cases same : y = x
        · subst same
          exact fromNew 0
        · apply endsWithin_of_unbound
          rw [get?_bind, if_neg same]
          exact free
    | succ links ih =>
        intro y ends
        by_cases same : y = x
        · subst same
          exact fromNew (links + 1)
        · rintro z ⟨bound, found, occurs⟩
          rw [get?_bind, if_neg same] at found
          exact ih z (ends z ⟨bound, found, occurs⟩)
  exact ⟨s.size + 1, longer s.size y (acyclic.endsWithin y)⟩

theorem Acyclic.apply_bind (t : Term) : t.apply (s.bind x term) = (t.apply s).replace x term := by
  have whole : (t.apply s).replace x term =
      t.subst fun y => ((Term.var y).apply s).replace x term := Term.subst_subst t
  rw [whole]
  symm
  apply (acyclic.bind unbound fresh).subst_eq_apply
  · intro y free
    by_cases same : y = x
    · rw [get?_bind, if_pos same] at free
      cases free
    · rw [get?_bind, if_neg same] at free
      rw [apply_of_unbound free]
      exact if_neg same
  · intro y bound found
    by_cases same : y = x
    · subst same
      rw [get?_bind, if_pos rfl] at found
      cases found
      rw [apply_of_unbound (get?_eq_none_iff.mpr unbound)]
      have fixed : term.subst (fun z => ((Term.var z).apply s).replace y term) = term := by
        apply Term.subst_of_fixed
        intro z occurs
        rw [apply_of_unbound (get?_eq_none_iff.mpr (fresh z occurs).1)]
        exact if_neg (fresh z occurs).2
      rw [fixed]
      exact if_pos rfl
    · rw [get?_bind, if_neg same] at found
      rw [acyclic.apply_of_bound found]
      exact Term.subst_subst bound

end Binding

end Substitution

/-! ### Chains followed without a bound -/

namespace Term

open Substitution

variable {s : Substitution}

theorem resolvesAll_map {image : Term → Term} {ts : List Term}
    (each : ∀ t ∈ ts, t.Resolves s (image t)) : ResolvesAll s ts (ts.map image) := by
  induction ts with
  | nil => exact .nil
  | cons t ts ih =>
      apply ResolvesAll.cons
      · exact each t List.mem_cons_self
      · exact ih fun u inside => each u (List.mem_cons_of_mem t inside)

/-- A term comes to what is made of it by putting in what its variables come to. -/
theorem resolves_subst {image : String → Term} {t : Term}
    (each : ∀ x ∈ t.occurrences, (Term.var x).Resolves s (image x)) :
    t.Resolves s (t.subst image) := by
  induction t using nested with
  | var name => exact each name List.mem_cons_self
  | atom name => exact .atom name
  | number value => exact .number value
  | string value => exact .string value
  | compound functor args ih =>
      rw [subst, substAll_eq_map]
      apply Resolves.compound
      apply resolvesAll_map
      intro t inside
      exact ih t inside fun x occurs => each x (mem_occurrencesAll.mpr ⟨t, inside, occurs⟩)
  | list items ih =>
      rw [subst, substAll_eq_map]
      apply Resolves.list
      apply resolvesAll_map
      intro t inside
      exact ih t inside fun x occurs => each x (mem_occurrencesAll.mpr ⟨t, inside, occurs⟩)

/-- Links that have been followed up to unbound variables only were all there are. -/
theorem resolves_of_unbound {fuel : Nat} {t : Term}
    (unbound : ∀ y ∈ (t.subst (s.value fuel)).occurrences, y ∉ s.domain) :
    t.Resolves s (t.subst (s.value fuel)) := by
  induction fuel generalizing t with
  | zero =>
      apply resolves_subst
      intro x occurs
      apply Resolves.free
      apply get?_eq_none_iff.mpr
      exact unbound x ((mem_occurrences_subst _ t).mpr ⟨x, occurs, List.mem_singleton_self x⟩)
  | succ fuel ih =>
      apply resolves_subst
      intro x occurs
      have inside (y : String) (here : y ∈ (s.value (fuel + 1) x).occurrences) : y ∉ s.domain :=
        unbound y ((mem_occurrences_subst _ t).mpr ⟨x, occurs, here⟩)
      cases found : s.get? x with
      | none =>
          rw [value, found]
          exact .free found
      | some term =>
          rw [value, found] at inside ⊢
          exact .bound found (ih inside)

mutual

theorem Resolves.endsWithin {t result : Term} : t.Resolves s result →
    ∀ x ∈ t.occurrences, ∃ links, s.EndsWithin links x
  | .free unbound, x, occurs => by
      obtain rfl := List.mem_singleton.mp occurs
      exact ⟨0, unbound⟩
  | .bound found rest, x, occurs => by
      obtain rfl := List.mem_singleton.mp occurs
      refine ⟨s.size + 1, fun y leads => ?_⟩
      obtain ⟨term, same, inside⟩ := leads
      rw [found] at same
      cases same
      obtain ⟨links, ends⟩ := rest.endsWithin y inside
      exact ends.within_size
  | .atom _, _, occurs | .number _, _, occurs | .string _, _, occurs => by cases occurs
  | .compound _ all, x, occurs => all.endsWithin x occurs
  | .list all, x, occurs => all.endsWithin x occurs

theorem ResolvesAll.endsWithin {ts results : List Term} : ResolvesAll s ts results →
    ∀ x ∈ occurrencesAll ts, ∃ links, s.EndsWithin links x
  | .nil, _, occurs => by cases occurs
  | .cons first rest, x, occurs => by
      rcases List.mem_append.mp occurs with here | later
      · exact first.endsWithin x here
      · exact rest.endsWithin x later

end

mutual

theorem Resolves.unique {t result other : Term} :
    t.Resolves s result → t.Resolves s other → result = other
  | .free unbound, again => by
      cases again with
      | free => rfl
      | bound found rest =>
          rw [unbound] at found
          cases found
  | .bound found rest, again => by
      cases again with
      | free unbound =>
          rw [unbound] at found
          cases found
      | bound foundAgain restAgain =>
          rw [found] at foundAgain
          cases foundAgain
          exact rest.unique restAgain
  | .atom _, .atom _ | .number _, .number _ | .string _, .string _ => rfl
  | .compound functor all, .compound _ again => congrArg (Term.compound functor) (all.unique again)
  | .list all, .list again => congrArg Term.list (all.unique again)

theorem ResolvesAll.unique {ts results others : List Term} :
    ResolvesAll s ts results → ResolvesAll s ts others → results = others
  | .nil, .nil => rfl
  | .cons first rest, .cons firstAgain restAgain => by
      rw [first.unique firstAgain, rest.unique restAgain]

end

/-- Chains followed without a bound lead somewhere exactly if following as many links as there are
bindings leaves no bound variable, and then to the same. -/
theorem resolves_iff_apply (s : Substitution) (t result : Term) :
    t.Resolves s result ↔ s.resolves t = true ∧ result = t.apply s := by
  have ends : s.resolves t = true ↔ ∀ y ∈ (t.apply s).occurrences, y ∉ s.domain := by
    simp [Substitution.resolves]
  constructor
  · intro resolves
    have unbound : ∀ y ∈ (t.apply s).occurrences, y ∉ s.domain := by
      intro y occurs
      obtain ⟨x, inside, later⟩ := (mem_occurrences_subst _ t).mp occurs
      obtain ⟨links, within⟩ := resolves.endsWithin x inside
      exact within.within_size.not_mem_domain later
    exact ⟨ends.mpr unbound, resolves.unique (resolves_of_unbound unbound)⟩
  · rintro ⟨resolves, rfl⟩
    exact resolves_of_unbound (ends.mp resolves)

/-- Where no variable reaches itself, instantiating a term needs no bound. -/
theorem resolves_of_acyclic (acyclic : s.Acyclic) (t : Term) : t.Resolves s (t.apply s) :=
  resolves_of_unbound fun _ => acyclic.not_mem_domain

theorem resolves_iff (acyclic : s.Acyclic) (t result : Term) :
    t.Resolves s result ↔ result = t.apply s := by
  constructor
  · intro resolves
    exact ((resolves_iff_apply s t result).mp resolves).2
  · rintro rfl
    exact resolves_of_acyclic acyclic t

end Term

theorem Substitution.resolves_iff {s : Substitution} {t : Term} :
    s.resolves t = true ↔ ∃ result, t.Resolves s result := by
  simp only [Term.resolves_iff_apply, exists_eq_right]

theorem Substitution.Acyclic.resolves {s : Substitution} (acyclic : s.Acyclic) (t : Term) :
    s.resolves t = true :=
  resolves_iff.mpr ⟨_, Term.resolves_of_acyclic acyclic t⟩

end CognitiveAgent
