import CognitiveAgent.Run.Parameters

/-!
Closed terms. A substitution that binds variables only to closed terms is followed to its end in
one step. Unifying with closed terms adds only bindings of that kind, and binds all the variables
it meets. So parameters passed to a module are closed, and are exactly the module's own variables.
-/

set_option autoImplicit false

namespace CognitiveAgent

namespace Term

theorem isClosed_iff {t : Term} : t.isClosed = true ↔ t.occurrences = [] := List.isEmpty_iff

theorem isClosed_iff_not_mem {t : Term} : t.isClosed = true ↔ ∀ x, x ∉ t.occurrences := by
  rw [isClosed_iff, List.eq_nil_iff_forall_not_mem]

theorem mem_occurrencesAll {x : String} {ts : List Term} :
    x ∈ occurrencesAll ts ↔ ∃ t ∈ ts, x ∈ t.occurrences := by
  induction ts with
  | nil => simp [occurrencesAll]
  | cons t ts ih => simp [occurrencesAll, ih]

theorem mem_freeVars {x : String} {t : Term} : x ∈ t.freeVars ↔ x ∈ t.occurrences :=
  List.mem_eraseDups

theorem isClosed_iff_freeVars {t : Term} : t.isClosed = true ↔ t.freeVars = [] := by
  rw [isClosed_iff_not_mem, List.eq_nil_iff_forall_not_mem]
  simp only [mem_freeVars]

theorem mem_freeVarsAll {x : String} {ts : List Term} :
    x ∈ freeVarsAll ts ↔ ∃ t ∈ ts, x ∈ t.occurrences :=
  List.mem_eraseDups.trans mem_occurrencesAll

theorem isClosed_list_iff {items : List Term} :
    (Term.list items).isClosed = true ↔ ∀ t ∈ items, t.isClosed = true := by
  rw [isClosed_iff_not_mem]
  constructor
  · intro closed t inside
    rw [isClosed_iff_not_mem]
    exact fun x occurs => closed x (mem_occurrencesAll.mpr ⟨t, inside, occurs⟩)
  · intro closed x member
    obtain ⟨t, inside, occurs⟩ := mem_occurrencesAll.mp member
    exact isClosed_iff_not_mem.mp (closed t inside) x occurs

mutual

theorem occurrences_of_equal :
    ∀ left right : Term, left.equal right = true → left.occurrences = right.occurrences
  | .var a, .var b, same => by
      rw [eq_of_beq same]
  | .atom _, .atom _, _ | .number _, .number _, _ | .string _, .string _, _ => rfl
  | .compound _ as, .compound _ bs, same =>
      occurrencesAll_of_equal as bs (Bool.and_eq_true_iff.mp same).2
  | .list as, .list bs, same => occurrencesAll_of_equal as bs same

private theorem occurrencesAll_of_equal :
    ∀ lefts rights : List Term, equalAll lefts rights = true →
      occurrencesAll lefts = occurrencesAll rights
  | [], [], _ => rfl
  | left :: lefts, right :: rights, same => by
      obtain ⟨first, rest⟩ := Bool.and_eq_true_iff.mp same
      rw [occurrencesAll, occurrencesAll, occurrences_of_equal left right first,
        occurrencesAll_of_equal lefts rights rest]

end

section Images

variable (image : String → Term) {x : String}

mutual

/-- The variables of an instance are those of the images. -/
theorem mem_occurrences_subst :
    ∀ t : Term, x ∈ (t.subst image).occurrences ↔ ∃ y ∈ t.occurrences, x ∈ (image y).occurrences
  | .var name => by simp [subst, occurrences]
  | .atom _ | .number _ | .string _ => by simp [subst, occurrences]
  | .compound _ args => by
      simpa only [subst, occurrences] using mem_occurrencesAll_substAll args
  | .list items => by
      simpa only [subst, occurrences] using mem_occurrencesAll_substAll items

private theorem mem_occurrencesAll_substAll :
    ∀ ts : List Term, x ∈ occurrencesAll (substAll image ts) ↔
      ∃ y ∈ occurrencesAll ts, x ∈ (image y).occurrences
  | [] => by simp [substAll, occurrencesAll]
  | t :: ts => by
      simp only [substAll, occurrencesAll, List.mem_append, mem_occurrences_subst t,
        mem_occurrencesAll_substAll ts]
      constructor
      · rintro (⟨y, occurs, here⟩ | ⟨y, occurs, here⟩)
        · exact ⟨y, .inl occurs, here⟩
        · exact ⟨y, .inr occurs, here⟩
      · rintro ⟨y, occurs | occurs, here⟩
        · exact .inl ⟨y, occurs, here⟩
        · exact .inr ⟨y, occurs, here⟩

end

mutual

theorem subst_of_closed : ∀ t : Term, t.occurrences = [] → t.subst image = t
  | .var name, closed => by cases closed
  | .atom _, _ | .number _, _ | .string _, _ => rfl
  | .compound _ args, closed => congrArg _ (substAll_of_closed args closed)
  | .list items, closed => congrArg _ (substAll_of_closed items closed)

private theorem substAll_of_closed : ∀ ts : List Term, occurrencesAll ts =
    [] → substAll image ts = ts
  | [], _ => rfl
  | t :: ts, closed => by
      obtain ⟨first, rest⟩ := List.append_eq_nil_iff.mp closed
      rw [substAll, subst_of_closed t first, substAll_of_closed ts rest]

end

end Images

theorem apply_of_closed {t : Term} (closed : t.isClosed = true) (s : Substitution) :
    t.apply s = t :=
  subst_of_closed _ t (isClosed_iff.mp closed)

end Term

namespace Substitution

def IsClosed (s : Substitution) : Prop := ∀ binding ∈ s.bindings, binding.2.isClosed = true

instance (s : Substitution) : Decidable s.IsClosed :=
  inferInstanceAs (Decidable (∀ binding ∈ s.bindings, binding.2.isClosed = true))

theorem isClosed_empty : empty.IsClosed := by
  intro binding member
  cases member

theorem mem_of_get? {s : Substitution} {name : String} {term : Term}
    (found : s.get? name = some term) : (name, term) ∈ s.bindings := by
  obtain ⟨before, after, split, _⟩ := List.lookup_eq_some_iff.mp found
  rw [split]
  exact List.mem_append_right before List.mem_cons_self

theorem get?_eq_none_iff {s : Substitution} {name : String} :
    s.get? name = none ↔ name ∉ s.domain := by
  unfold get? domain
  rw [List.lookup_eq_none_iff]
  constructor
  · intro differ member
    obtain ⟨binding, inside, same⟩ := List.mem_map.mp member
    exact bne_iff_ne.mp (differ binding inside) same.symm
  · intro absent binding inside
    rw [bne_iff_ne]
    rintro rfl
    exact absent (List.mem_map_of_mem inside)

private theorem mem_place_self (name : String) (term : Term) (bindings : List (String × Term)) :
    (name, term) ∈ place name term bindings := by
  induction bindings with
  | nil => exact List.mem_cons_self
  | cons first rest ih =>
      unfold place
      split
      · exact List.mem_cons_self
      · split
        · exact List.mem_cons_self
        · exact List.mem_cons_of_mem _ ih

private theorem mem_place_of_mem {name : String} {binding : String × Term}
    {bindings : List (String × Term)} (member : binding ∈ bindings) (other : binding.1 ≠ name)
    (term : Term) : binding ∈ place name term bindings := by
  induction bindings with
  | nil => cases member
  | cons first rest ih =>
      unfold place
      split
      · exact List.mem_cons_of_mem _ member
      · split
        · rename_i same
          rcases List.mem_cons.mp member with rfl | later
          · exact absurd same.symm other
          · exact List.mem_cons_of_mem _ later
        · rcases List.mem_cons.mp member with rfl | later
          · exact List.mem_cons_self
          · exact List.mem_cons_of_mem _ (ih later)

theorem mem_domain_bind {s : Substitution} {name x : String} {term : Term} :
    x ∈ (s.bind name term).domain ↔ x = name ∨ x ∈ s.domain := by
  constructor
  · intro member
    obtain ⟨binding, inside, rfl⟩ := List.mem_map.mp member
    rcases mem_place inside with rfl | earlier
    · exact .inl rfl
    · exact .inr (List.mem_map_of_mem earlier)
  · intro either
    by_cases same : x = name
    · rw [same]
      exact List.mem_map_of_mem (mem_place_self name term s.bindings)
    · rcases either with here | earlier
      · exact absurd here same
      · obtain ⟨binding, inside, rfl⟩ := List.mem_map.mp earlier
        exact List.mem_map_of_mem (mem_place_of_mem inside same term)

theorem IsClosed.bind {s : Substitution} (closed : s.IsClosed) (name : String) {term : Term}
    (closedTerm : term.isClosed = true) : (s.bind name term).IsClosed := by
  intro binding member
  rcases mem_place member with rfl | earlier
  · exact closedTerm
  · exact closed binding earlier

theorem IsClosed.retain {s : Substitution} (closed : s.IsClosed) (names : List String) :
    (s.retain names).IsClosed :=
  fun binding member => closed binding (List.mem_filter.mp member).1

private theorem mem_domain_retain {s : Substitution} {names : List String} {x : String} :
    x ∈ (s.retain names).domain ↔ x ∈ s.domain ∧ x ∈ names := by
  simp only [domain, retain, List.mem_map, List.mem_filter, List.contains_iff_mem]
  constructor
  · rintro ⟨binding, ⟨inside, named⟩, rfl⟩
    exact ⟨⟨binding, inside, rfl⟩, named⟩
  · rintro ⟨⟨binding, inside, rfl⟩, named⟩
    exact ⟨binding, ⟨inside, named⟩, rfl⟩

section Closed

variable {s : Substitution} (closed : s.IsClosed)
include closed

theorem isClosed_of_get? {name : String} {term : Term} (found : s.get? name = some term) :
    term.isClosed = true :=
  closed _ (mem_of_get? found)

/-- A chain of bindings has one link at most. -/
theorem value_eq (name : String) : s.value s.size name = (s.get? name).getD (.var name) := by
  cases found : s.get? name with
  | none =>
      cases s.size with
      | zero => rfl
      | succ fuel =>
          rw [value, found]
          rfl
  | some term =>
      have positive : 0 < s.size := List.length_pos_of_mem (mem_of_get? found)
      obtain ⟨fuel, size⟩ := Nat.exists_eq_succ_of_ne_zero (Nat.ne_of_gt positive)
      rw [size, value, found]
      exact Term.subst_of_closed _ term (Term.isClosed_iff.mp (isClosed_of_get? closed found))

/-- What is left of a term's variables are those that are not bound. -/
theorem mem_occurrences_apply {t : Term} {x : String} :
    x ∈ (t.apply s).occurrences ↔ x ∈ t.occurrences ∧ x ∉ s.domain := by
  refine (Term.mem_occurrences_subst _ t).trans ?_
  have image (y : String) :
      x ∈ (s.value s.size y).occurrences ↔ x = y ∧ y ∉ s.domain := by
    rw [value_eq closed, ← get?_eq_none_iff]
    cases found : s.get? y with
    | none => simp [Term.occurrences]
    | some term =>
        have empty := Term.isClosed_iff.mp (isClosed_of_get? closed found)
        simp [empty]
  constructor
  · rintro ⟨y, occurs, member⟩
    obtain ⟨rfl, unbound⟩ := (image y).mp member
    exact ⟨occurs, unbound⟩
  · rintro ⟨occurs, unbound⟩
    exact ⟨x, occurs, (image x).mpr ⟨rfl, unbound⟩⟩

end Closed

end Substitution

/-! ### Chains followed without a bound -/

namespace Term

mutual

/-- What a term comes to when chains of bindings are followed to their ends, however long. -/
inductive Resolves (s : Substitution) : Term → Term → Prop where
  | free {name : String} (unbound : s.get? name = none) : Resolves s (.var name) (.var name)
  | bound {name : String} {term result : Term} (found : s.get? name = some term)
      (rest : Resolves s term result) : Resolves s (.var name) result
  | atom (name : String) : Resolves s (.atom name) (.atom name)
  | number (value : Number) : Resolves s (.number value) (.number value)
  | string (value : String) : Resolves s (.string value) (.string value)
  | compound (functor : String) {args results : List Term} (all : ResolvesAll s args results) :
      Resolves s (.compound functor args) (.compound functor results)
  | list {items results : List Term} (all : ResolvesAll s items results) :
      Resolves s (.list items) (.list results)

inductive ResolvesAll (s : Substitution) : List Term → List Term → Prop where
  | nil : ResolvesAll s [] []
  | cons {t result : Term} {ts results : List Term} (first : Resolves s t result)
      (rest : ResolvesAll s ts results) : ResolvesAll s (t :: ts) (result :: results)

end

mutual

private theorem resolves_of_closed (s : Substitution) : ∀ t : Term, t.occurrences =
    [] → t.Resolves s t
  | .var name, closed => by cases closed
  | .atom name, _ => .atom name
  | .number value, _ => .number value
  | .string value, _ => .string value
  | .compound functor args, closed => .compound functor (resolvesAll_of_closed s args closed)
  | .list items, closed => .list (resolvesAll_of_closed s items closed)

private theorem resolvesAll_of_closed (s : Substitution) :
    ∀ ts : List Term, occurrencesAll ts = [] → ResolvesAll s ts ts
  | [], _ => .nil
  | t :: ts, closed => by
      obtain ⟨first, rest⟩ := List.append_eq_nil_iff.mp closed
      exact .cons (resolves_of_closed s t first) (resolvesAll_of_closed s ts rest)

end

private theorem resolves_value {s : Substitution} (closed : s.IsClosed) (name : String) :
    (Term.var name).Resolves s (s.value s.size name) := by
  rw [Substitution.value_eq closed]
  cases found : s.get? name with
  | none => exact .free found
  | some term =>
      have empty := isClosed_iff.mp (Substitution.isClosed_of_get? closed found)
      exact .bound found (resolves_of_closed s term empty)

mutual

/-- Under closed bindings, instantiating a term needs no bound. -/
theorem resolves_apply {s : Substitution} (closed : s.IsClosed) :
    ∀ t : Term, t.Resolves s (t.apply s)
  | .var name => resolves_value closed name
  | .atom name => .atom name
  | .number value => .number value
  | .string value => .string value
  | .compound functor args => .compound functor (resolvesAll_substAll closed args)
  | .list items => .list (resolvesAll_substAll closed items)

private theorem resolvesAll_substAll {s : Substitution} (closed : s.IsClosed) :
    ∀ ts : List Term, ResolvesAll s ts (substAll (s.value s.size) ts)
  | [] => .nil
  | t :: ts => .cons (resolves_apply closed t) (resolvesAll_substAll closed ts)

end

end Term

/-! ### Unification with closed terms -/

namespace Unification

def Unsolved (problem : Problem) (x : String) : Prop :=
  ∃ equation ∈ problem, x ∈ equation.1.occurrences

def RightsClosed (problem : Problem) : Prop := ∀ equation ∈ problem, equation.2.isClosed = true

theorem unsolved_cons {equation : Term × Term} {others : Problem} {x : String} :
    Unsolved (equation :: others) x ↔ x ∈ equation.1.occurrences ∨ Unsolved others x := by
  simp [Unsolved]

theorem unsolved_append {first second : Problem} {x : String} :
    Unsolved (first ++ second) x ↔ Unsolved first x ∨ Unsolved second x := by
  simp only [Unsolved, List.mem_append]
  constructor
  · rintro ⟨equation, inside | inside, occurs⟩
    · exact .inl ⟨equation, inside, occurs⟩
    · exact .inr ⟨equation, inside, occurs⟩
  · rintro (⟨equation, inside, occurs⟩ | ⟨equation, inside, occurs⟩)
    · exact ⟨equation, .inl inside, occurs⟩
    · exact ⟨equation, .inr inside, occurs⟩

theorem RightsClosed.append {first second : Problem} (closed : RightsClosed first)
    (alsoClosed : RightsClosed second) : RightsClosed (first ++ second) := by
  intro equation member
  rcases List.mem_append.mp member with inside | inside
  · exact closed equation inside
  · exact alsoClosed equation inside

private theorem unsolved_zip {lefts rights : List Term} (same : lefts.length = rights.length)
    {x : String} : Unsolved (lefts.zip rights) x ↔ x ∈ Term.occurrencesAll lefts := by
  induction lefts generalizing rights with
  | nil => simp [Unsolved, Term.occurrencesAll]
  | cons left lefts ih =>
      cases rights with
      | nil => cases same
      | cons right rights =>
          have rest := ih (Nat.succ.inj same)
          simp only [Unsolved] at rest
          simp only [Unsolved, List.zip_cons_cons, List.mem_cons, exists_eq_or_imp, rest,
            Term.occurrencesAll, List.mem_append]

/-- What a confrontation with closed terms comes to, given the variables on the left: agreement if
there are none, or a demand to bind one of them to a closed term that leaves the others. -/
def Meets (occurs : String → Prop) : Confrontation → Prop
  | .agree => ∀ x, ¬ occurs x
  | .clash => True
  | .demand name term rest => term.isClosed = true ∧ RightsClosed rest ∧
      ∀ x, occurs x ↔ x = name ∨ Unsolved rest x

theorem Meets.congr {occurs others : String → Prop} {met : Confrontation}
    (meets : Meets occurs met) (same : ∀ x, others x ↔ occurs x) : Meets others met := by
  cases met with
  | agree => exact fun x inside => meets x ((same x).mp inside)
  | clash => trivial
  | demand name term rest =>
      exact ⟨meets.1, meets.2.1, fun x => (same x).trans (meets.2.2 x)⟩

private theorem meets_var (name : String) {right : Term} (closed : right.isClosed = true) :
    Meets (· ∈ (Term.var name).occurrences) (.demand name right []) := by
  refine ⟨closed, fun _ member => absurd member List.not_mem_nil, fun x => ?_⟩
  simp [Term.occurrences, Unsolved]

theorem confrontAll_eq {lefts rights : List Term} (same : lefts.length = rights.length) :
    Term.confrontAll lefts rights = confront (lefts.zip rights) := by
  induction lefts generalizing rights with
  | nil =>
      cases rights with
      | nil => rfl
      | cons right rights => cases same
  | cons left lefts ih =>
      cases rights with
      | nil => cases same
      | cons right rights =>
          rw [Term.confrontAll, List.zip_cons_cons, confront, ih (Nat.succ.inj same)]

theorem meets_of_forall {problem : Problem} (closed : RightsClosed problem)
    (each : ∀ equation ∈ problem,
      Meets (· ∈ equation.1.occurrences) (equation.1.confront equation.2)) :
    Meets (Unsolved problem) (confront problem) := by
  induction problem with
  | nil =>
      rintro x ⟨equation, member, _⟩
      cases member
  | cons first others ih =>
      obtain ⟨left, right⟩ := first
      have othersClosed : RightsClosed others :=
        fun equation member => closed equation (List.mem_cons_of_mem _ member)
      have later := ih othersClosed fun equation member =>
        each equation (List.mem_cons_of_mem _ member)
      have here := each (left, right) List.mem_cons_self
      unfold confront
      cases met : left.confront right with
      | clash => trivial
      | agree =>
          rw [met] at here
          exact later.congr fun x => unsolved_cons.trans (or_iff_right (here x))
      | demand name term rest =>
          rw [met] at here
          obtain ⟨closedTerm, restClosed, exactly⟩ := here
          refine ⟨closedTerm, restClosed.append othersClosed, fun x => ?_⟩
          rw [unsolved_cons, unsolved_append, ← or_assoc]
          exact or_congr_left (exactly x)

private theorem meets_all {lefts rights : List Term} (same : lefts.length = rights.length)
    (closed : (Term.list rights).isClosed = true)
    (each : ∀ left right, left ∈ lefts → right.isClosed = true →
      Meets (· ∈ left.occurrences) (left.confront right)) :
    Meets (· ∈ Term.occurrencesAll lefts) (Term.confrontAll lefts rights) := by
  have rightsClosed : RightsClosed (lefts.zip rights) := by
    intro equation member
    exact Term.isClosed_list_iff.mp closed _ (List.of_mem_zip member).2
  rw [confrontAll_eq same]
  refine (meets_of_forall rightsClosed fun equation member => ?_).congr fun x =>
    (unsolved_zip same).symm
  exact each _ _ (List.of_mem_zip member).1 (rightsClosed equation member)

private theorem meets_equal {left right : Term} (closed : right.isClosed = true) :
    Meets (· ∈ left.occurrences) (if left.equal right then .agree else .clash) := by
  split
  · rename_i same
    intro x member
    rw [Term.occurrences_of_equal _ _ same] at member
    exact Term.isClosed_iff_not_mem.mp closed x member
  · trivial

theorem confront_meets :
    ∀ left right : Term, right.isClosed = true → Meets (· ∈ left.occurrences) (left.confront right)
  | .var name, right, closed => by
      cases right with
      | var => cases closed
      | _ => exact meets_var name closed
  | .atom _, right, closed | .number _, right, closed | .string _, right, closed => by
      cases right with
      | var => cases closed
      | _ => exact meets_equal closed
  | .compound _ as, right, closed => by
      cases right with
      | var => cases closed
      | compound g bs =>
          unfold Term.confront
          split
          · rename_i fits
            exact meets_all fits.2 closed fun left right inside => confront_meets left right
          · trivial
      | _ => exact meets_equal closed
  | .list as, right, closed => by
      cases right with
      | var => cases closed
      | list bs =>
          unfold Term.confront
          split
          · rename_i fits
            exact meets_all fits closed fun left right inside => confront_meets left right
          · trivial
      | _ => exact meets_equal closed
termination_by left => sizeOf left
decreasing_by all_goals
  have smaller := List.sizeOf_lt_of_mem inside
  simp
  omega

private theorem mem_occurrences_replace {t term : Term} {name x : String}
    (closed : term.isClosed = true) :
    x ∈ (t.replace name term).occurrences ↔ x ≠ name ∧ x ∈ t.occurrences := by
  refine (Term.mem_occurrences_subst _ t).trans ?_
  constructor
  · rintro ⟨y, occurs, member⟩
    by_cases same : y = name
    · rw [if_pos same] at member
      exact absurd member (Term.isClosed_iff_not_mem.mp closed x)
    · rw [if_neg same] at member
      rw [List.mem_singleton.mp member]
      exact ⟨same, occurs⟩
  · rintro ⟨other, occurs⟩
    refine ⟨x, occurs, ?_⟩
    rw [if_neg other]
    exact List.mem_singleton_self x

private theorem unsolved_replace {problem : Problem} {term : Term} {name x : String}
    (closed : term.isClosed = true) :
    Unsolved (replace name term problem) x ↔ x ≠ name ∧ Unsolved problem x := by
  constructor
  · rintro ⟨equation, member, occurs⟩
    obtain ⟨earlier, inside, rfl⟩ := List.mem_map.mp member
    obtain ⟨other, here⟩ := (mem_occurrences_replace closed).mp occurs
    exact ⟨other, earlier, inside, here⟩
  · rintro ⟨other, equation, inside, occurs⟩
    exact ⟨_, List.mem_map_of_mem inside, (mem_occurrences_replace closed).mpr ⟨other, occurs⟩⟩

theorem RightsClosed.replace {problem : Problem} (closed : RightsClosed problem) (name : String)
    (term : Term) : RightsClosed (replace name term problem) := by
  intro equation member
  obtain ⟨earlier, inside, rfl⟩ := List.mem_map.mp member
  have kept : earlier.2.replace name term = earlier.2 :=
    Term.subst_of_closed _ _ (Term.isClosed_iff.mp (closed earlier inside))
  rw [kept]
  exact closed earlier inside

theorem solve_cases {fuel : Nat} {problem : Problem} {s result : Substitution}
    (solved : solve fuel problem s = some result) :
    (confront problem = .agree ∧ s = result) ∨
      ∃ fewer name term rest, fuel = fewer + 1 ∧ confront problem = .demand name term rest ∧
        solve fewer (replace name term rest) (s.bind name term) = some result := by
  cases fuel with
  | zero =>
      unfold solve at solved
      split at solved
      · rename_i met
        exact .inl ⟨met, Option.some.inj solved⟩
      · cases solved
  | succ fewer =>
      unfold solve at solved
      split at solved
      · rename_i met
        exact .inl ⟨met, Option.some.inj solved⟩
      · cases solved
      · rename_i name term rest met
        split at solved
        · cases solved
        · exact .inr ⟨fewer, name, term, rest, rfl, met, solved⟩

/-- A solution of equations with closed right sides adds closed bindings, one for each variable
on the left. -/
theorem solve_closed {fuel : Nat} {problem : Problem} {s result : Substitution}
    (rights : RightsClosed problem) (closed : s.IsClosed)
    (solved : solve fuel problem s = some result) :
    result.IsClosed ∧ ∀ x, x ∈ result.domain ↔ x ∈ s.domain ∨ Unsolved problem x := by
  -- Each round binds one variable of the left sides to a closed term, and replacing it there leaves
  -- the other variables as they are.
  induction fuel using Nat.strongRecOn generalizing problem s with
  | ind fuel ih =>
      have meets := meets_of_forall rights
        fun equation member => confront_meets _ _ (rights equation member)
      rcases solve_cases solved with ⟨met, rfl⟩ | ⟨fewer, name, term, rest, rfl, met, later⟩
      · rw [met] at meets
        exact ⟨closed, fun x => (or_iff_left (meets x)).symm⟩
      · rw [met] at meets
        obtain ⟨closedTerm, restClosed, exactly⟩ := meets
        obtain ⟨resultClosed, bound⟩ := ih fewer (Nat.lt_succ_self fewer)
          (restClosed.replace name term) (closed.bind name closedTerm) later
        refine ⟨resultClosed, fun x => ?_⟩
        rw [bound x, Substitution.mem_domain_bind, unsolved_replace closedTerm, exactly x]
        by_cases same : x = name
        · simp [same]
        · simp [same]

end Unification

section Solutions

open Unification

variable {s result : Substitution}

/-- Unifying with a closed term binds the variables of the other one. -/
theorem Term.unify_closed {left right : Term} (closed : s.IsClosed)
    (closedRight : right.isClosed = true) (unified : left.unify right s = some result) :
    result.IsClosed ∧ ∀ x, x ∈ result.domain ↔ x ∈ s.domain ∨ x ∈ left.occurrences := by
  unfold Term.unify at unified
  rw [Term.apply_of_closed closedRight] at unified
  have rights : RightsClosed [(left.apply s, right)] := by
    intro equation member
    rw [List.mem_singleton.mp member]
    exact closedRight
  obtain ⟨resultClosed, bound⟩ := solve_closed rights closed unified
  refine ⟨resultClosed, fun x => ?_⟩
  rw [bound x, unsolved_cons, Substitution.mem_occurrences_apply closed]
  by_cases earlier : x ∈ s.domain
  · simp [earlier]
  · simp [earlier, Unsolved]

theorem Term.mgu_closed {left right : Term} (closedRight : right.isClosed = true)
    (unified : left.mgu right = some result) :
    result.IsClosed ∧ ∀ x, x ∈ result.domain ↔ x ∈ left.occurrences := by
  obtain ⟨closed, bound⟩ := Term.unify_closed Substitution.isClosed_empty closedRight unified
  refine ⟨closed, fun x => (bound x).trans ?_⟩
  exact or_iff_right List.not_mem_nil

private theorem foldlM_unify_closed {bindings : List (String × Term)} (closed : s.IsClosed)
    (bindingsClosed : ∀ binding ∈ bindings, binding.2.isClosed = true)
    (merged : bindings.foldlM
      (fun merged binding => (Term.var binding.1).unify binding.2 merged) s = some result) :
    result.IsClosed ∧ ∀ x, x ∈ result.domain ↔ x ∈ s.domain ∨ x ∈ bindings.map (·.1) := by
  induction bindings generalizing s with
  | nil =>
      cases merged
      exact ⟨closed, fun x => (or_iff_left List.not_mem_nil).symm⟩
  | cons binding rest ih =>
      rw [List.foldlM_cons] at merged
      obtain ⟨extended, unified, later⟩ := Option.bind_eq_some_iff.mp merged
      obtain ⟨extendedClosed, here⟩ := Term.unify_closed closed
        (bindingsClosed binding List.mem_cons_self) unified
      obtain ⟨resultClosed, there⟩ := ih extendedClosed
        (fun next member => bindingsClosed next (List.mem_cons_of_mem binding member)) later
      refine ⟨resultClosed, fun x => ?_⟩
      rw [there x, here x, List.map_cons, List.mem_cons, or_assoc]
      simp [Term.occurrences]

/-- Merging closed bindings binds what either substitution binds. -/
theorem Substitution.combine_closed {other : Substitution} (closed : s.IsClosed)
    (otherClosed : other.IsClosed) (merged : s.combine other = some result) :
    result.IsClosed ∧ ∀ x, x ∈ result.domain ↔ x ∈ s.domain ∨ x ∈ other.domain :=
  foldlM_unify_closed closed otherClosed merged

end Solutions

namespace Module

variable {m : Module} {caller bindings : Substitution}

/-- Matching closed values binds the variables of the formal parameters. -/
theorem matchParameters_closed {pairs : List (Term × Term)} {bound : Substitution}
    (closed : bound.IsClosed) (matched : m.matchParameters caller pairs bound = .ok bindings) :
    bindings.IsClosed ∧
      ∀ x, x ∈ bindings.domain ↔ x ∈ bound.domain ∨ ∃ pair ∈ pairs, x ∈ pair.1.occurrences := by
  induction pairs generalizing bound with
  | nil =>
      cases matched
      exact ⟨closed, fun x => by simp⟩
  | cons pair rest ih =>
      obtain ⟨formal, actual⟩ := pair
      unfold matchParameters at matched
      dsimp only at matched
      split at matched
      · rename_i closedValue
        split at matched
        · cases matched
        · rename_i extended found
          obtain ⟨unifier, unified, merged⟩ := Option.bind_eq_some_iff.mp found
          obtain ⟨unifierClosed, here⟩ := Term.mgu_closed closedValue unified
          obtain ⟨extendedClosed, joined⟩ :=
            Substitution.combine_closed closed unifierClosed merged
          obtain ⟨bindingsClosed, there⟩ := ih extendedClosed matched
          refine ⟨bindingsClosed, fun x => ?_⟩
          rw [there x, joined x, here x, Substitution.mem_occurrences_apply closed]
          by_cases earlier : x ∈ bound.domain
          · simp [earlier]
          · simp [earlier]
      · cases matched

/-- A called module binds its own variables, and these to closed terms. -/
theorem bindParameters_closed {actuals : List Term}
    (passed : m.bindParameters actuals caller = .ok bindings) :
    bindings.IsClosed ∧ ∀ x, x ∈ bindings.domain ↔ x ∈ m.parameterVars := by
  unfold bindParameters at passed
  split at passed
  · rename_i fits
    split at passed
    · cases passed
    · rename_i bound matched
      cases passed
      obtain ⟨closed, exactly⟩ := matchParameters_closed Substitution.isClosed_empty matched
      refine ⟨closed.retain _, fun x => ?_⟩
      rw [Substitution.mem_domain_retain, exactly x]
      refine and_iff_right_of_imp fun own => .inr ?_
      obtain ⟨pair, inside, occurs⟩ :=
        (Unification.unsolved_zip fits).mpr (List.mem_eraseDups.mp own)
      exact ⟨pair, inside, occurs⟩
  · cases passed

theorem bindCall_closed {actuals : List Term} (closed : caller.IsClosed)
    (passed : m.bindCall actuals caller = .ok bindings) : bindings.IsClosed := by
  unfold bindCall at passed
  split at passed
  · rw [← Except.ok.inj passed]
    exact closed
  · exact (bindParameters_closed passed).1

end Module

end CognitiveAgent
