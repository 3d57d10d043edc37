import CognitiveAgent.Program.Construction
import CognitiveAgent.Proofs.Merging

/-!
Passing parameters as matching. The formal parameters of a module are matched with the values of
the actual ones, from left to right. What is bound on the way is closed, so that it never gets mixed
up with the variables of the caller. Main statement: parameters are passed exactly if one
replacement of the variables makes all formal ones equal to the values, and otherwise the first
position at which there is no such replacement any more is reported.
-/

set_option autoImplicit false

namespace CognitiveAgent

namespace Number

private theorem display_of_isZero {x : Number} (zero : x.isZero = true) : x.display = "0" := by
  have bounded : x.word < 18446744073709551616 := x.bits.toNat_lt
  have word : x.word % 9223372036854775808 = 0 := eq_of_beq zero
  have exponent : x.exponentField = 0 := by
    change x.word / 4503599627370496 % 2048 = 0
    omega
  have fraction : x.fraction = 0 := by
    change x.word % 4503599627370496 = 0
    omega
  have units : x.units = 0 := by
    rw [Number.units, significand, if_pos exponent, fraction, Nat.zero_mul]
  have one : 0 < unitsPerOne := by
    unfold unitsPerOne
    generalize 1074 = n
    exact Nat.pow_pos Nat.two_pos
  have positive : 0 < Nat.pow 2 63 * unitsPerOne := Nat.mul_pos (Nat.pow_pos Nat.two_pos) one
  have small : x.isSmallInteger = true := by
    simp [isSmallInteger, isFinite, exponent, units, positive]
  unfold display
  rw [if_pos small, units, Nat.zero_div]
  simp only [bne_self_eq_false, Bool.and_false, Bool.false_eq_true, if_false]
  rfl

/-- The two zeros look the same. -/
theorem display_of_equal {x y : Number} (same : x.equal y = true) : x.display = y.display := by
  obtain ⟨_, _, rfl | ⟨zero, alsoZero⟩⟩ := equal_iff.mp same
  · rfl
  · rw [display_of_isZero zero, display_of_isZero alsoZero]

end Number

namespace Term

variable {image other : String → Term} {x : String}

theorem AlikeAll.each {f g : Term → Term} {ts : List Term} (all : AlikeAll (ts.map f) (ts.map g)) :
    ∀ t ∈ ts, (f t).Alike (g t) := by
  induction ts with
  | nil => exact fun _ impossible => absurd impossible List.not_mem_nil
  | cons t ts ih =>
      cases all with
      | cons first rest => exact List.forall_mem_cons.mpr ⟨first, ih rest⟩

/-- A replacement is determined by what it makes of a term, as far as the variables of the term
go. -/
theorem Alike.images {t : Term} (alike : (t.subst image).Alike (t.subst other))
    (occurs : x ∈ t.occurrences) : (image x).Alike (other x) := by
  induction t using nested with
  | var name =>
      rw [List.mem_singleton.mp occurs]
      exact alike
  | atom | number | string => cases occurs
  | compound functor args ih =>
      obtain ⟨t, inside, here⟩ := mem_occurrencesAll.mp occurs
      simp only [Term.subst, substAll_eq_map] at alike
      cases alike with
      | compound _ all => exact ih t inside (all.each t inside) here
  | list items ih =>
      obtain ⟨t, inside, here⟩ := mem_occurrencesAll.mp occurs
      simp only [Term.subst, substAll_eq_map] at alike
      cases alike with
      | list all => exact ih t inside (all.each t inside) here

mutual

private theorem Alike.display_eq {left right : Term} :
    left.Alike right → left.display = right.display
  | .var _ | .atom _ | .string _ => rfl
  | .number same => by
      rcases same with rfl | same
      · rfl
      · exact Number.display_of_equal same
  | .compound functor all => by rw [display, display, all.displayAll_eq]
  | .list all => by rw [display, display, all.displayAll_eq]

private theorem AlikeAll.displayAll_eq {lefts rights : List Term} :
    AlikeAll lefts rights → displayAll lefts = displayAll rights
  | .nil => rfl
  | .cons first rest => by rw [displayAll, displayAll, first.display_eq, rest.displayAll_eq]

end

theorem equal_symm {left right : Term} (same : left.equal right = true) :
    right.equal left = true :=
  (alike_of_equal left right same).symm.equal (nanFree_of_equal left right same).2

private theorem isClosed_of_equal {left right : Term} (same : left.equal right = true) :
    left.isClosed = right.isClosed := by
  rw [isClosed, isClosed, occurrences_of_equal _ _ same]

end Term

/-! ### Closed substitutions -/

namespace Substitution

variable {s t : Substitution} {image : String → Term}

private theorem IsClosed.solvedBy (closed : s.IsClosed) (free : s.NaNFree)
    (same : ∀ x term, s.get? x = some term → image x = term) : s.SolvedBy image := by
  intro x term found
  have whole := Term.isClosed_iff.mp (isClosed_of_get? closed found)
  rw [same x term found, Term.subst_of_closed _ term whole]
  exact Term.equal_self (free x term found)

/-- Closed substitutions that share no variable can always be merged. -/
theorem IsClosed.exists_combine (closed : s.IsClosed) (otherClosed : t.IsClosed) (free : s.NaNFree)
    (otherFree : t.NaNFree) (apart : ∀ x ∈ t.domain, x ∉ s.domain) :
    ∃ m, s.combine t = some m := by
  obtain ⟨image, first, second⟩ : ∃ image : String → Term,
      (∀ x term, s.get? x = some term → image x = term) ∧
        ∀ x term, t.get? x = some term → image x = term := by
    refine ⟨fun x => (s.get? x).getD ((t.get? x).getD (.var x)), ?_, ?_⟩
    · intro x term found
      simp only [found, Option.getD_some]
    · intro x term found
      have unbound := get?_eq_none_iff.mpr (apart x (mem_domain_iff.mpr ⟨term, found⟩))
      simp only [unbound, found, Option.getD_none, Option.getD_some]
  obtain ⟨m, merged, _⟩ := (closed.solvedBy free first).combine closed.acyclic free otherFree
    (otherClosed.solvedBy otherFree second)
  exact ⟨m, merged⟩

private theorem retain_of_forall {names : List String} (all : ∀ x ∈ s.domain, x ∈ names) :
    s.retain names = s := by
  have kept : s.bindings.filter (fun binding => names.contains binding.1) = s.bindings := by
    apply List.filter_eq_self.mpr
    intro binding member
    exact List.contains_iff_mem.mpr (all binding.1 (List.mem_map_of_mem member))
  unfold retain
  congr

end Substitution

/-! ### Matching positions -/

open Unification (Problem RightsClosed Unsolved)

/-- Formal parameters can be matched with the values opposite: these are closed, and one replacement
of the variables makes each formal parameter equal to its value. -/
def Matching (positions : Problem) : Prop :=
  RightsClosed positions ∧ ∃ image : String → Term,
    ∀ position ∈ positions, (position.1.subst image).equal position.2 = true

structure Matched (positions : Problem) (bound : Substitution) : Prop where
  values : RightsClosed positions
  closed : bound.IsClosed
  free : bound.NaNFree
  domain : ∀ x, x ∈ bound.domain ↔ Unsolved positions x
  alike : ∀ position ∈ positions, (position.1.apply bound).Alike position.2

theorem Matching.of_append {positions more : Problem} (matching : Matching (positions ++ more)) :
    Matching positions := by
  obtain ⟨values, image, same⟩ := matching
  exact ⟨fun position inside => values position (List.mem_append_left more inside), image,
    fun position inside => same position (List.mem_append_left more inside)⟩

theorem Matching.take {positions : Problem} (matching : Matching positions) (k : Nat) :
    Matching (positions.take k) := by
  rw [← List.take_append_drop k positions] at matching
  exact matching.of_append

/-- There is only one first position that cannot be matched. -/
theorem Matching.le_of_stuck {positions : Problem} {k n : Nat}
    (fits : Matching (positions.take k)) (stuck : ¬ Matching (positions.take (n + 1))) : k ≤ n := by
  apply Nat.le_of_not_lt
  intro later
  apply stuck
  have shorter := fits.take (n + 1)
  rw [List.take_take, Nat.min_eq_left later] at shorter
  exact shorter

private theorem matched_nil : Matched [] .empty where
  values _ impossible := absurd impossible List.not_mem_nil
  closed := Substitution.isClosed_empty
  free := Substitution.nanFree_empty
  domain x := by simp [Substitution.domain, Substitution.empty, Unsolved]
  alike _ impossible := absurd impossible List.not_mem_nil

namespace Matched

variable {positions : Problem} {bound unifier extended : Substitution} {formal value : Term}
variable {image : String → Term}

theorem equal (matched : Matched positions bound) (free : Unification.NaNFree positions) :
    ∀ position ∈ positions, (position.1.apply bound).equal position.2 = true := by
  intro position inside
  apply (matched.alike position inside).equal
  exact matched.free.apply matched.closed.acyclic (free position inside).1

theorem matching (matched : Matched positions bound) (free : Unification.NaNFree positions) :
    Matching positions :=
  ⟨matched.values, bound.value bound.size, matched.equal free⟩

/-- Any other replacement that matches the positions agrees with the bindings. -/
theorem holdsUnder (matched : Matched positions bound)
    (also : ∀ position ∈ positions, (position.1.subst image).Alike position.2) :
    bound.HoldsUnder image := by
  intro x term found
  obtain ⟨position, inside, occurs⟩ :=
    (matched.domain x).mp (Substitution.mem_domain_iff.mpr ⟨term, found⟩)
  have same : (image x).Alike (bound.value bound.size x) :=
    ((also position inside).trans (matched.alike position inside).symm).images occurs
  rw [Substitution.value_eq matched.closed, found] at same
  have closedTerm := Substitution.isClosed_of_get? matched.closed found
  rw [Term.subst_of_closed _ term (Term.isClosed_iff.mp closedTerm)]
  exact same

/-- What is bound for the next position is not bound yet, so that it can be taken in. -/
theorem exists_combine (matched : Matched positions bound) (closedValue : value.isClosed = true)
    (formalFree : formal.NaNFree) (valueFree : value.NaNFree)
    (unified : (formal.apply bound).mgu value = some unifier) :
    ∃ extended, bound.combine unifier = some extended := by
  obtain ⟨unifierClosed, domain⟩ := Term.mgu_closed closedValue unified
  have instanceFree := matched.free.apply matched.closed.acyclic formalFree
  apply matched.closed.exists_combine unifierClosed matched.free
    (Term.nanFree_mgu instanceFree valueFree unified)
  intro x member
  exact ((Substitution.mem_occurrences_apply matched.closed).mp ((domain x).mp member)).2

theorem extend (matched : Matched positions bound) (closedValue : value.isClosed = true)
    (formalFree : formal.NaNFree) (valueFree : value.NaNFree)
    (unified : (formal.apply bound).mgu value = some unifier)
    (merged : bound.combine unifier = some extended) :
    Matched (positions ++ [(formal, value)]) extended := by
  have acyclic := matched.closed.acyclic
  have instanceFree := matched.free.apply acyclic formalFree
  have unifierFree := Term.nanFree_mgu instanceFree valueFree unified
  have reads := Substitution.combine_reads acyclic unifier
  obtain ⟨last, kept⟩ := reads.extends acyclic merged
  obtain ⟨unifierClosed, here⟩ := Term.mgu_closed closedValue unified
  obtain ⟨closed, domain⟩ := Substitution.combine_closed matched.closed unifierClosed merged
  have whole {t : Term} (closedTerm : t.isClosed = true) :
      t.subst (extended.value extended.size) = t := Term.apply_of_closed closedTerm extended
  constructor
  · exact matched.values.append fun position member => by
      rw [List.mem_singleton.mp member]
      exact closedValue
  · exact closed
  · exact reads.nanFree matched.free unifierFree.equations merged
  · intro x
    rw [domain x, here x, matched.domain x, Unification.unsolved_append, Unification.unsolved_cons,
      Substitution.mem_occurrences_apply matched.closed, matched.domain x]
    have nothing : ¬ Unsolved [] x := by rintro ⟨_, impossible, _⟩; cases impossible
    by_cases earlier : Unsolved positions x
    · simp only [earlier, true_or]
    · simp only [earlier, nothing, false_or, or_false, not_false_eq_true, and_true]
  · intro position member
    rcases List.mem_append.mp member with inside | inside
    -- Earlier formal parameters have closed instances, which stay as they are.
    · have alike := (matched.alike position inside).subst (extended.value extended.size)
      rw [whole (matched.values position inside)] at alike
      rw [← kept.apply_apply last acyclic]
      exact alike
    · rw [List.mem_singleton.mp inside]
      have solved := (Term.mgu_reads _ _).solves Substitution.acyclic_empty unified
        (formal.apply bound, value) List.mem_cons_self
      have alike := solved.subst (extended.value extended.size)
      have holds := Substitution.holdsUnder_of_combine acyclic merged
      have through := holds.apply unifierClosed.acyclic (formal.apply bound)
      have same : value.subst (unifier.value unifier.size) = value :=
        Term.apply_of_closed closedValue unifier
      rw [same, whole closedValue] at alike
      rw [← kept.apply_apply last acyclic]
      exact through.symm.trans alike

/-- The next position is matched if any replacement matches it along with the earlier ones. -/
theorem step (matched : Matched positions bound) (formalFree : formal.NaNFree)
    (valueFree : value.NaNFree) (matching : Matching (positions ++ [(formal, value)])) :
    ∃ extended, ((formal.apply bound).mgu value).bind bound.combine = some extended ∧
      Matched (positions ++ [(formal, value)]) extended := by
  obtain ⟨values, image, same⟩ := matching
  have last : (formal, value) ∈ positions ++ [(formal, value)] :=
    List.mem_append_right _ List.mem_cons_self
  have closedValue : value.isClosed = true := values _ last
  have acyclic := matched.closed.acyclic
  have holds : bound.HoldsUnder image := matched.holdsUnder fun position inside =>
    Term.alike_of_equal _ _ (same position (List.mem_append_left _ inside))
  have alike : ((formal.apply bound).subst image).Alike value :=
    (holds.apply acyclic formal).trans (Term.alike_of_equal _ _ (same _ last))
  have equal : ((formal.apply bound).subst image).equal (value.subst image) = true := by
    rw [Term.subst_of_closed _ value (Term.isClosed_iff.mp closedValue)]
    exact alike.equal (alike.symm.nanFree valueFree)
  have instanceFree := matched.free.apply acyclic formalFree
  obtain ⟨unifier, unified, _⟩ := Term.mgu_holdsUnder instanceFree valueFree equal
  obtain ⟨extended, merged⟩ :=
    matched.exists_combine closedValue formalFree valueFree unified
  refine ⟨extended, ?_, matched.extend closedValue formalFree valueFree unified merged⟩
  rw [unified]
  exact merged

end Matched

namespace Module

variable {m : Module} {caller other : Substitution} {actuals others : List Term}

/-! ### A run over the positions -/

def positions (m : Module) (actuals : List Term) (caller : Substitution) : Problem :=
  m.parameters.zip (actuals.map (·.apply caller))

def refusal (m : Module) (formal value : Term) : Cause :=
  if value.isClosed then .parameterMismatch m.name formal.display value.display
  else .unboundVariables ("call of module " ++ m.display) value.freeVars

/-- Matching goes through with all positions, or it is stopped by the first one that cannot be
matched along with the earlier ones. -/
theorem matchParameters_run (m : Module) (caller : Substitution) (pairs : List (Term × Term))
    {before : Problem} {bound : Substitution} (matched : Matched before bound)
    (free : Unification.NaNFree (before ++ pairs.map (Prod.map id (·.apply caller)))) :
    let positions := pairs.map (Prod.map id (·.apply caller))
    (∃ bindings, m.matchParameters caller pairs bound = .ok bindings ∧
      Matched (before ++ positions) bindings) ∨
    ∃ k formal value, positions[k]? = some (formal, value) ∧
      Matching (before ++ positions.take k) ∧ ¬ Matching (before ++ positions.take (k + 1)) ∧
      m.matchParameters caller pairs bound = .error (m.refusal formal value) := by
  induction pairs generalizing before bound with
  | nil =>
      left
      refine ⟨bound, rfl, ?_⟩
      rw [List.map_nil, List.append_nil]
      exact matched
  | cons pair rest ih =>
      obtain ⟨formal, actual⟩ := pair
      intro positions
      obtain ⟨formalFree, valueFree⟩ : formal.NaNFree ∧ (actual.apply caller).NaNFree :=
        free (formal, actual.apply caller) (List.mem_append_right _ List.mem_cons_self)
      have earlier := matched.matching
        fun position inside => free position (List.mem_append_left _ inside)
      have shift (more : Problem) : before ++ (formal, actual.apply caller) :: more =
          before ++ [(formal, actual.apply caller)] ++ more := by
        rw [List.append_assoc, List.singleton_append]
      by_cases matching : Matching (before ++ [(formal, actual.apply caller)])
      · obtain ⟨extended, found, next⟩ := matched.step formalFree valueFree matching
        have closedValue := next.values (formal, actual.apply caller)
          (List.mem_append_right _ List.mem_cons_self)
        have runs : m.matchParameters caller ((formal, actual) :: rest) bound =
            m.matchParameters caller rest extended := by
          rw [matchParameters, if_pos closedValue, found]
        have restFree : Unification.NaNFree (before ++ [(formal, actual.apply caller)] ++
            rest.map (Prod.map id (·.apply caller))) := by
          rw [← shift]
          exact free
        rw [runs]
        rcases ih next restFree with ⟨bindings, passed, all⟩ |
          ⟨k, last, value, at_k, fits, stuck, refused⟩
        · left
          refine ⟨bindings, passed, ?_⟩
          rw [← shift] at all
          exact all
        · right
          refine ⟨k + 1, last, value, at_k, ?_, ?_, refused⟩
          · rw [← shift] at fits
            exact fits
          · rw [← shift] at stuck
            exact stuck
      · right
        refine ⟨0, formal, actual.apply caller, rfl, ?_, matching, ?_⟩
        · rw [List.take_zero, List.append_nil]
          exact earlier
        · by_cases closedValue : (actual.apply caller).isClosed = true
          · rw [matchParameters, if_pos closedValue, refusal, if_pos closedValue]
            cases found : ((formal.apply bound).mgu (actual.apply caller)).bind bound.combine with
            | none => rfl
            | some extended =>
                obtain ⟨unifier, unified, merged⟩ := Option.bind_eq_some_iff.mp found
                have next := matched.extend closedValue formalFree valueFree unified merged
                refine absurd (next.matching fun position inside => ?_) matching
                apply free
                rw [List.map_cons]
                change position ∈ before ++ (formal, actual.apply caller) :: _
                rw [shift]
                exact List.mem_append_left _ inside
          · rw [matchParameters, if_neg closedValue, refusal, if_neg closedValue]

private theorem positions_eq : m.positions actuals caller =
    (m.parameters.zip actuals).map (Prod.map id (·.apply caller)) := List.zip_map_right ..

private theorem nanFree_positions (formals : ∀ formal ∈ m.parameters, formal.NaNFree)
    (values : ∀ value ∈ actuals.map (·.apply caller), value.NaNFree) :
    Unification.NaNFree (m.positions actuals caller) := by
  intro position member
  have inside := List.of_mem_zip member
  exact ⟨formals _ inside.1, values _ inside.2⟩

/-- Nothing that is bound by matching is left out in the end. -/
theorem bindParameters_run (fits : m.parameters.length = actuals.length)
    (free : Unification.NaNFree (m.positions actuals caller)) :
    (∃ bindings, m.bindParameters actuals caller = .ok bindings ∧
      Matched (m.positions actuals caller) bindings) ∨
    ∃ k formal value, (m.positions actuals caller)[k]? = some (formal, value) ∧
      Matching ((m.positions actuals caller).take k) ∧
      ¬ Matching ((m.positions actuals caller).take (k + 1)) ∧
      m.bindParameters actuals caller = .error (m.refusal formal value) := by
  unfold bindParameters
  rw [if_pos fits]
  have run := m.matchParameters_run caller (m.parameters.zip actuals) matched_nil
  rw [← positions_eq] at run
  rcases run free with ⟨bindings, passed, matched⟩ | ⟨k, formal, value, at_k, fit, stuck, refused⟩
  · left
    refine ⟨bindings, ?_, matched⟩
    rw [passed]
    apply congrArg Except.ok
    apply Substitution.retain_of_forall
    intro x bound
    obtain ⟨position, inside, occurs⟩ := (matched.domain x).mp bound
    exact Term.mem_freeVarsAll.mpr ⟨position.1, (List.of_mem_zip inside).1, occurs⟩
  · right
    refine ⟨k, formal, value, at_k, fit, stuck, ?_⟩
    rw [refused]

private theorem bindParameters_of_length_ne (differ : m.parameters.length ≠ actuals.length) :
    m.bindParameters actuals caller =
      .error (.arity m.name m.parameters.length actuals.length) := if_neg differ

private theorem bindParameters_eq_ok_iff (free : Unification.NaNFree (m.positions actuals caller)) :
    (∃ bindings, m.bindParameters actuals caller = .ok bindings) ↔
      m.parameters.length = actuals.length ∧ Matching (m.positions actuals caller) := by
  by_cases fits : m.parameters.length = actuals.length
  · rcases bindParameters_run fits free with ⟨bindings, passed, matched⟩ |
      ⟨k, _, _, _, _, stuck, refused⟩
    · exact ⟨fun _ => ⟨fits, matched.matching free⟩, fun _ => ⟨bindings, passed⟩⟩
    · constructor
      · rintro ⟨bindings, passed⟩
        rw [refused] at passed
        cases passed
      · rintro ⟨_, matching⟩
        exact absurd (matching.take (k + 1)) stuck
  · constructor
    · rintro ⟨bindings, passed⟩
      rw [bindParameters_of_length_ne fits] at passed
      cases passed
    · rintro ⟨same, _⟩
      exact absurd same fits

private theorem bindParameters_matched (free : Unification.NaNFree (m.positions actuals caller))
    {bindings : Substitution} (passed : m.bindParameters actuals caller = .ok bindings) :
    Matched (m.positions actuals caller) bindings := by
  obtain ⟨fits, _⟩ := (bindParameters_eq_ok_iff free).mp ⟨bindings, passed⟩
  rcases bindParameters_run fits free with ⟨found, again, matched⟩ | ⟨_, _, _, _, _, _, refused⟩
  · rw [passed] at again
    cases again
    exact matched
  · rw [passed] at refused
    cases refused

private theorem bindParameters_eq_error_iff
    (free : Unification.NaNFree (m.positions actuals caller))
    (cause : Cause) : m.bindParameters actuals caller = .error cause ↔
      m.parameters.length ≠ actuals.length ∧
        cause = .arity m.name m.parameters.length actuals.length ∨
      m.parameters.length = actuals.length ∧ ∃ k formal value,
        (m.positions actuals caller)[k]? = some (formal, value) ∧
        Matching ((m.positions actuals caller).take k) ∧
        ¬ Matching ((m.positions actuals caller).take (k + 1)) ∧
        cause = m.refusal formal value := by
  by_cases fits : m.parameters.length = actuals.length
  · simp only [fits, ne_eq, not_true_eq_false, false_and, true_and, false_or]
    rcases bindParameters_run fits free with ⟨bindings, passed, matched⟩ |
      ⟨k, formal, value, at_k, fit, stuck, refused⟩
    · rw [passed]
      constructor
      · intro impossible
        cases impossible
      · rintro ⟨k, _, _, _, _, stuck, _⟩
        exact absurd ((matched.matching free).take (k + 1)) stuck
    · rw [refused]
      constructor
      · intro same
        cases same
        exact ⟨k, formal, value, at_k, fit, stuck, rfl⟩
      · rintro ⟨n, _, _, at_n, otherFit, otherStuck, rfl⟩
        obtain rfl : k = n :=
          Nat.le_antisymm (fit.le_of_stuck otherStuck) (otherFit.le_of_stuck stuck)
        rw [at_k] at at_n
        cases at_n
        rfl
  · simp only [fits, ne_eq, not_false_eq_true, true_and, false_and, or_false]
    rw [bindParameters_of_length_ne fits]
    constructor
    · intro same
      cases same
      rfl
    · rintro rfl
      rfl

private theorem eq_refusal_iff {formal value : Term} {cause : Cause} :
    cause = m.refusal formal value ↔ value.isClosed = false ∧
        cause = .unboundVariables ("call of module " ++ m.display) value.freeVars ∨
      value.isClosed = true ∧ cause = .parameterMismatch m.name formal.display value.display := by
  cases closed : value.isClosed with
  | false => simp [refusal, closed]
  | true => simp [refusal, closed]

end Module

/-! ### Calls with equal values -/

inductive SameValues : Problem → Problem → Prop where
  | nil : SameValues [] []
  | cons (formal : Term) {value other : Term} {first second : Problem}
      (equal : value.equal other = true) (rest : SameValues first second) :
      SameValues ((formal, value) :: first) ((formal, other) :: second)

/-- Outcomes of two calls that differ in nothing but equal numbers. -/
inductive SameOutcome : Except Cause Substitution → Except Cause Substitution → Prop where
  | passed {first second : Substitution}
      (each : ∀ x, Option.Rel (fun t u => t.equal u = true) (first.get? x) (second.get? x)) :
      SameOutcome (.ok first) (.ok second)
  | refused (cause : Cause) : SameOutcome (.error cause) (.error cause)

private theorem sameValues_zip (formals : List Term) {values others : List Term}
    (same : Term.equalAll values others = true) :
    SameValues (formals.zip values) (formals.zip others) := by
  induction formals generalizing values others with
  | nil => exact .nil
  | cons formal formals ih =>
      cases values with
      | nil =>
          cases others with
          | nil => exact .nil
          | cons other others => cases same
      | cons value values =>
          cases others with
          | nil => cases same
          | cons other others =>
              obtain ⟨first, rest⟩ := Bool.and_eq_true_iff.mp same
              exact .cons formal first (ih rest)

namespace SameValues

variable {first second : Problem} {formal value : Term}

theorem symm (same : SameValues first second) : SameValues second first := by
  induction same with
  | nil => exact .nil
  | cons formal equal _ ih => exact .cons formal (Term.equal_symm equal) ih

theorem take (same : SameValues first second) (k : Nat) :
    SameValues (first.take k) (second.take k) := by
  induction same generalizing k with
  | nil =>
      rw [List.take_nil]
      exact .nil
  | cons formal equal _ ih =>
      cases k with
      | zero => exact .nil
      | succ k => exact .cons formal equal (ih k)

private theorem at_index (same : SameValues first second) {k : Nat}
    (here : first[k]? = some (formal, value)) :
    ∃ other, second[k]? = some (formal, other) ∧ value.equal other = true := by
  induction same generalizing k with
  | nil => cases here
  | cons formal equal _ ih =>
      cases k with
      | zero =>
          cases here
          exact ⟨_, rfl, equal⟩
      | succ k => exact ih here

private theorem of_mem (same : SameValues first second) (member : (formal, value) ∈ first) :
    ∃ other, (formal, other) ∈ second ∧ value.equal other = true := by
  obtain ⟨k, here⟩ := List.mem_iff_getElem?.mp member
  obtain ⟨other, there, equal⟩ := same.at_index here
  exact ⟨other, List.mem_of_getElem? there, equal⟩

theorem matching (same : SameValues first second) (matching : Matching first) :
    Matching second := by
  obtain ⟨closed, image, matched⟩ := matching
  constructor
  · intro position member
    obtain ⟨value, inside, equal⟩ := same.symm.of_mem member
    rw [Term.isClosed_of_equal equal]
    exact closed _ inside
  · refine ⟨image, fun position member => ?_⟩
    obtain ⟨value, inside, equal⟩ := same.symm.of_mem member
    have here := matched _ inside
    have alike := (Term.alike_of_equal _ _ here).trans (Term.alike_of_equal _ _ equal).symm
    exact alike.equal (Term.nanFree_of_equal _ _ here).1

theorem bindings (same : SameValues first second) {bound other : Substitution}
    (matched : Matched first bound) (alsoMatched : Matched second other) (x : String) :
    Option.Rel (fun t u => t.equal u = true) (bound.get? x) (other.get? x) := by
  have within {first second : Problem} {bound other : Substitution} (same : SameValues first second)
      (matched : Matched first bound) (alsoMatched : Matched second other)
      (member : x ∈ bound.domain) : x ∈ other.domain := by
    obtain ⟨⟨formal, value⟩, inside, occurs⟩ := (matched.domain x).mp member
    obtain ⟨opposite, there, _⟩ := same.of_mem inside
    exact (alsoMatched.domain x).mpr ⟨_, there, occurs⟩
  cases found : bound.get? x with
  | none =>
      have unbound : x ∉ other.domain := fun member =>
        Substitution.get?_eq_none_iff.mp found (within same.symm alsoMatched matched member)
      rw [Substitution.get?_eq_none_iff.mpr unbound]
      exact .none
  | some term =>
      have member : x ∈ bound.domain := Substitution.mem_domain_iff.mpr ⟨term, found⟩
      obtain ⟨opposite, alsoFound⟩ :=
        Substitution.mem_domain_iff.mp (within same matched alsoMatched member)
      rw [alsoFound]
      apply Option.Rel.some
      obtain ⟨⟨formal, value⟩, inside, occurs⟩ := (matched.domain x).mp member
      obtain ⟨otherValue, there, equal⟩ := same.of_mem inside
      have instances : (formal.apply bound).Alike (formal.apply other) :=
        (matched.alike _ inside).trans
          ((Term.alike_of_equal _ _ equal).trans (alsoMatched.alike _ there).symm)
      have alike : (bound.value bound.size x).Alike (other.value other.size x) :=
        instances.images occurs
      rw [Substitution.value_eq matched.closed, Substitution.value_eq alsoMatched.closed, found,
        alsoFound] at alike
      exact alike.equal (matched.free x term found)

end SameValues

namespace Module

variable {m : Module} {caller other : Substitution} {actuals others : List Term}

private theorem refusal_of_equal (formal : Term) {value opposite : Term}
    (same : value.equal opposite = true) : m.refusal formal value = m.refusal formal opposite := by
  rw [refusal, refusal, Term.isClosed_of_equal same, (Term.alike_of_equal _ _ same).display_eq,
    Term.freeVars, Term.freeVars, Term.occurrences_of_equal _ _ same]

private theorem bindParameters_same (formals : ∀ formal ∈ m.parameters, formal.NaNFree)
    (same : Term.equalAll (actuals.map (·.apply caller)) (others.map (·.apply other)) = true) :
    SameOutcome (m.bindParameters actuals caller) (m.bindParameters others other) := by
  have lengths : actuals.length = others.length := by
    have mapped := Term.equalAll_length same
    rw [List.length_map, List.length_map] at mapped
    exact mapped
  have sameValues : SameValues (m.positions actuals caller) (m.positions others other) :=
    sameValues_zip m.parameters same
  obtain ⟨free, otherFree⟩ := Term.nanFreeAll_of_equal _ _ same
  have firstFree := nanFree_positions (m := m) formals fun value inside => .of_mem_all free inside
  have secondFree :=
    nanFree_positions (m := m) formals fun value inside => .of_mem_all otherFree inside
  by_cases fits : m.parameters.length = actuals.length
  · have alsoFits := fits.trans lengths
    rcases bindParameters_run fits firstFree with ⟨bindings, passed, matched⟩ |
      ⟨k, formal, value, at_k, fit, stuck, refused⟩
    · rcases bindParameters_run alsoFits secondFree with ⟨opposite, alsoPassed, alsoMatched⟩ |
        ⟨n, _, _, _, _, stuck, _⟩
      · rw [passed, alsoPassed]
        exact .passed (sameValues.bindings matched alsoMatched)
      · have matching := sameValues.matching (matched.matching firstFree)
        exact absurd (matching.take (n + 1)) stuck
    · rcases bindParameters_run alsoFits secondFree with ⟨opposite, _, alsoMatched⟩ |
        ⟨n, otherFormal, otherValue, at_n, otherFit, otherStuck, alsoRefused⟩
      · have matching := sameValues.symm.matching (alsoMatched.matching secondFree)
        exact absurd (matching.take (k + 1)) stuck
      · have there : k ≤ n := ((sameValues.take k).matching fit).le_of_stuck otherStuck
        have back : n ≤ k := ((sameValues.symm.take n).matching otherFit).le_of_stuck stuck
        obtain rfl : k = n := Nat.le_antisymm there back
        obtain ⟨opposite, here, equal⟩ := sameValues.at_index at_k
        rw [here] at at_n
        cases at_n
        rw [refused, alsoRefused, refusal_of_equal formal equal]
        exact .refused _
  · rw [bindParameters_of_length_ne fits, bindParameters_of_length_ne (lengths ▸ fits), lengths]
    exact .refused _

/-- Nothing but the values matters to the callee. -/
theorem matchParameters_congr {pairs opposite : List (Term × Term)}
    (same : pairs.map (Prod.map id (·.apply caller)) =
      opposite.map (Prod.map id (·.apply other))) (bound : Substitution) :
    m.matchParameters caller pairs bound = m.matchParameters other opposite bound := by
  induction pairs generalizing opposite bound with
  | nil =>
      cases opposite with
      | nil => rfl
      | cons position rest => cases same
  | cons pair pairs ih =>
      cases opposite with
      | nil => cases same
      | cons position rest =>
          obtain ⟨formal, actual⟩ := pair
          obtain ⟨otherFormal, otherActual⟩ := position
          obtain ⟨here, later⟩ := List.cons_eq_cons.mp same
          have formals : formal = otherFormal := congrArg Prod.fst here
          have values : actual.apply caller = otherActual.apply other := congrArg Prod.snd here
          rw [matchParameters, matchParameters, formals, values]
          simp only [ih later]

private theorem bindParameters_congr
    (same : actuals.map (·.apply caller) = others.map (·.apply other)) :
    m.bindParameters actuals caller = m.bindParameters others other := by
  have lengths : actuals.length = others.length := by
    have mapped := congrArg List.length same
    rw [List.length_map, List.length_map] at mapped
    exact mapped
  have positions : m.positions actuals caller = m.positions others other := by
    rw [Module.positions, same, Module.positions]
  rw [positions_eq, positions_eq] at positions
  rw [bindParameters, bindParameters, matchParameters_congr positions, lengths]

/-- After some positions have been matched, whatever the next one binds can be taken in. -/
theorem exists_combine_after {before after : List (Term × Term)} {formal actual : Term}
    {bound unifier : Substitution} (free : Unification.NaNFree (m.positions actuals caller))
    (split : m.parameters.zip actuals = before ++ (formal, actual) :: after)
    (passed : m.matchParameters caller before .empty = .ok bound)
    (closedValue : (actual.apply caller).isClosed = true)
    (unified : (formal.apply bound).mgu (actual.apply caller) = some unifier) :
    ∃ extended, bound.combine unifier = some extended := by
  rw [positions_eq, split, List.map_append, List.map_cons] at free
  have matched : Matched (before.map (Prod.map id (·.apply caller))) bound := by
    have run := m.matchParameters_run caller before matched_nil
      fun position inside => free position (List.mem_append_left _ inside)
    rcases run with ⟨bindings, again, matched⟩ | ⟨_, _, _, _, _, _, refused⟩
    · rw [passed] at again
      cases again
      exact matched
    · rw [passed] at refused
      cases refused
  obtain ⟨formalFree, valueFree⟩ : formal.NaNFree ∧ (actual.apply caller).NaNFree :=
    free (formal, actual.apply caller) (List.mem_append_right _ List.mem_cons_self)
  exact matched.exists_combine closedValue formalFree valueFree unified

end Module

/-- Parameters are passed exactly if there are as many of them as the module has, all values are
closed, and one replacement of the module's variables matches all of them. The bindings are then
closed, are those of the module's own variables, and make each formal parameter equal to its value.
Otherwise the cause is the number, or what is wrong with the first position that cannot be matched
along with the earlier ones, which is never found out only when bindings are merged. Calls with
equal values have the same outcome, whatever the names of the variables in them. -/
theorem parameter_passing {m : Module} {actuals : List Term} {caller : Substitution}
    (acyclic : caller.Acyclic) (free : caller.NaNFree)
    (formalsFree : ∀ formal ∈ m.parameters, formal.NaNFree)
    (actualsFree : ∀ actual ∈ actuals, actual.NaNFree) :
    (∀ actual ∈ actuals, ∀ value, actual.Resolves caller value ↔ value = actual.apply caller) ∧
    ((∃ bindings, m.bindParameters actuals caller = .ok bindings) ↔
      m.parameters.length = actuals.length ∧ Matching (m.positions actuals caller)) ∧
    (∀ bindings, m.bindParameters actuals caller = .ok bindings →
      (∀ x, x ∈ bindings.domain ↔ x ∈ m.parameterVars) ∧
      (∀ x term, bindings.get? x = some term → term.isClosed = true) ∧
      ∀ position ∈ m.positions actuals caller,
        (position.1.apply bindings).equal position.2 = true) ∧
    (∀ cause, m.bindParameters actuals caller = .error cause ↔
      m.parameters.length ≠ actuals.length ∧
        cause = .arity m.name m.parameters.length actuals.length ∨
      m.parameters.length = actuals.length ∧ ∃ k formal value,
        (m.positions actuals caller)[k]? = some (formal, value) ∧
        Matching ((m.positions actuals caller).take k) ∧
        ¬ Matching ((m.positions actuals caller).take (k + 1)) ∧
        (value.isClosed = false ∧
            cause = .unboundVariables ("call of module " ++ m.display) value.freeVars ∨
          value.isClosed = true ∧
            cause = .parameterMismatch m.name formal.display value.display)) ∧
    (∀ before formal actual after bound unifier,
      m.parameters.zip actuals = before ++ (formal, actual) :: after →
      m.matchParameters caller before .empty = .ok bound →
      (actual.apply caller).isClosed = true →
      (formal.apply bound).mgu (actual.apply caller) = some unifier →
      ∃ extended, bound.combine unifier = some extended) ∧
    ∀ (others : List Term) (other : Substitution),
      (actuals.map (·.apply caller) = others.map (·.apply other) →
        m.bindParameters actuals caller = m.bindParameters others other) ∧
      (Term.equalAll (actuals.map (·.apply caller)) (others.map (·.apply other)) = true →
        SameOutcome (m.bindParameters actuals caller) (m.bindParameters others other)) := by
  have valuesFree : ∀ value ∈ actuals.map (·.apply caller), value.NaNFree := by
    intro value member
    obtain ⟨actual, inside, rfl⟩ := List.mem_map.mp member
    exact free.apply acyclic (actualsFree actual inside)
  have positionsFree := Module.nanFree_positions formalsFree valuesFree
  refine ⟨fun actual _ => Term.resolves_iff acyclic actual,
    Module.bindParameters_eq_ok_iff positionsFree,
    fun bindings passed => ?_, fun cause => ?_,
    fun _ _ _ _ _ _ split => Module.exists_combine_after positionsFree split,
    fun others other => ⟨Module.bindParameters_congr, Module.bindParameters_same formalsFree⟩⟩
  · obtain ⟨closed, domain⟩ := Module.bindParameters_closed passed
    have matched := Module.bindParameters_matched positionsFree passed
    exact ⟨domain, fun x term => Substitution.isClosed_of_get? closed,
      matched.equal positionsFree⟩
  · simp only [Module.bindParameters_eq_error_iff positionsFree cause, Module.eq_refusal_iff]

def haulage : Module :=
  { Module.ofName "haul" with parameters := [.compound "leg" [.var "X", .var "Y"], .var "X"] }

/-- The caller has variables of the same names, bound to the two zeros. -/
def milestones : Substitution :=
  (Substitution.empty.bind "X" (.number (.ofWord (Nat.pow 2 63)))).bind "Y" (.number .zero)

def hauled : List Term := [.compound "leg" [.var "Y", .atom "home"], .var "X"]

def misdirected : List Term := [.compound "leg" [.var "Y", .atom "home"], .atom "away"]

theorem parameter_passing_of_haulage :
    milestones.Acyclic ∧ milestones.NaNFree ∧
    (∃ bindings, haulage.bindParameters hauled milestones = .ok bindings ∧
      (∀ x, x ∈ bindings.domain ↔ x ∈ ["X", "Y"]) ∧
      ∀ position ∈ haulage.positions hauled milestones,
        (position.1.apply bindings).equal position.2 = true) ∧
    haulage.bindParameters misdirected milestones = .error (.parameterMismatch "haul" "X" "away") ∧
    ∃ k, Matching ((haulage.positions misdirected milestones).take k) ∧
      ¬ Matching ((haulage.positions misdirected milestones).take (k + 1)) := by
  have closed : milestones.IsClosed := by decide +kernel
  have free : milestones.NaNFree :=
    (Substitution.nanFree_empty.bind (by decide +kernel)).bind (by decide +kernel)
  have formals : ∀ formal ∈ haulage.parameters, formal.NaNFree := by decide
  have hauledFree : ∀ actual ∈ hauled, actual.NaNFree := by decide
  have misdirectedFree : ∀ actual ∈ misdirected, actual.NaNFree := by decide
  have accepted : (haulage.bindParameters hauled milestones).toOption.isSome = true := by
    decide +kernel
  have refused : haulage.bindParameters misdirected milestones =
      .error (.parameterMismatch "haul" "X" "away") := rfl
  refine ⟨closed.acyclic, free, ?_, refused, ?_⟩
  · obtain ⟨_, _, sound, _⟩ := parameter_passing closed.acyclic free formals hauledFree
    cases passed : haulage.bindParameters hauled milestones with
    | error cause =>
        rw [passed] at accepted
        cases accepted
    | ok bindings =>
        obtain ⟨domain, _, equal⟩ := sound bindings passed
        exact ⟨bindings, rfl, domain, equal⟩
  · obtain ⟨_, _, _, errors, _⟩ := parameter_passing closed.acyclic free formals misdirectedFree
    rcases (errors _).mp refused with ⟨differ, _⟩ | ⟨_, k, _, _, _, fit, stuck, _⟩
    · exact absurd rfl differ
    · exact ⟨k, fit, stuck⟩

end CognitiveAgent
