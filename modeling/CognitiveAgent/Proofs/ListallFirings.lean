import CognitiveAgent.Proofs.ParameterMatching
import CognitiveAgent.Proofs.RuleFiring
import Mathlib.Data.List.Basic

/-!
Listall and forall. A forall rule merges each answer into the incoming bindings and fires with the
outcome; a listall rule reads the values off the answers themselves and fires once, with the list of
them. Main statement: where all is closed, the items of the list are what the variables of the
condition come to under the bindings that the forall rule would fire with.
-/

set_option autoImplicit false

namespace CognitiveAgent

/-! ### Merging closed substitutions -/

section Merges

open Unification

variable {s t m : Substitution} {x : String} {term : Term}

/-- A closed instance is only compared. -/
theorem Term.unify_of_bound {left : Term} (closedLeft : (left.apply s).isClosed = true)
    (closed : term.isClosed = true) (unified : left.unify term s = some m) : m = s := by
  unfold Term.unify at unified
  rw [Term.apply_of_closed closed] at unified
  have rights : RightsClosed [(left.apply s, term)] := by
    intro equation member
    rw [List.mem_singleton.mp member]
    exact closed
  have meets := meets_of_forall rights
    fun equation member => confront_meets _ _ (rights equation member)
  rcases solve_cases unified with ⟨_, same⟩ | ⟨_, name, bound, rest, _, met, _⟩
  · exact same.symm
  · rw [met] at meets
    obtain ⟨equation, member, occurs⟩ := (meets.2.2 name).mpr (.inl rfl)
    rw [List.mem_singleton.mp member] at occurs
    exact absurd occurs (Term.isClosed_iff_not_mem.mp closedLeft name)

private theorem Term.unify_of_unbound (unbound : s.get? x = none) (closed : term.isClosed = true)
    (unified : (Term.var x).unify term s = some m) : m = s.bind x term := by
  unfold Term.unify at unified
  rw [Term.apply_of_closed closed, Substitution.apply_of_unbound unbound] at unified
  have demands : Unification.confront [(.var x, term)] = .demand x term [] := by
    cases term with
    | var => cases closed
    | atom | number | string | compound | list => rfl
  rcases solve_cases unified with ⟨agrees, _⟩ | ⟨_, _, _, _, _, met, later⟩
  · rw [demands] at agrees
    cases agrees
  · rw [demands] at met
    cases met
    rcases solve_cases later with ⟨_, same⟩ | ⟨_, _, _, _, _, impossible, _⟩
    · exact same.symm
    · cases impossible

/-- Merging closed bindings keeps the first ones as they are and takes over the others. -/
theorem foldlM_unify_get? {bindings : List (String × Term)} (closed : s.IsClosed)
    (bindingsClosed : ∀ binding ∈ bindings, binding.2.isClosed = true)
    (merged : bindings.foldlM
      (fun merged binding => (Term.var binding.1).unify binding.2 merged) s = some m) (x : String) :
    m.get? x = (s.get? x).or (bindings.lookup x) := by
  induction bindings generalizing s with
  | nil =>
      cases merged
      exact (Option.or_none).symm
  | cons binding rest ih =>
      obtain ⟨name, term⟩ := binding
      have closedTerm : term.isClosed = true := bindingsClosed (name, term) List.mem_cons_self
      have restClosed : ∀ binding ∈ rest, binding.2.isClosed = true :=
        fun later member => bindingsClosed later (List.mem_cons_of_mem _ member)
      rw [List.foldlM_cons] at merged
      obtain ⟨extended, unified, later⟩ := Option.bind_eq_some_iff.mp merged
      cases found : s.get? name with
      | some bound =>
          have closedValue : ((Term.var name).apply s).isClosed = true := by
            rw [closed.acyclic.apply_of_bound found,
              Term.apply_of_closed (Substitution.isClosed_of_get? closed found)]
            exact Substitution.isClosed_of_get? closed found
          obtain rfl := Term.unify_of_bound closedValue closedTerm unified
          rw [ih closed restClosed later, List.lookup_cons]
          by_cases same : x = name
          · rw [same, found]
            rfl
          · rw [beq_false_of_ne same]
      | none =>
          obtain rfl := Term.unify_of_unbound found closedTerm unified
          rw [ih (closed.bind name closedTerm) restClosed later, Substitution.get?_bind,
            List.lookup_cons]
          by_cases same : x = name
          · rw [if_pos same, same, found, beq_self_eq_true]
            rfl
          · rw [if_neg same, beq_false_of_ne same]

private theorem Substitution.get?_combine (closed : s.IsClosed) (otherClosed : t.IsClosed)
    (merged : s.combine t = some m) (x : String) : m.get? x = (s.get? x).or (t.get? x) :=
  foldlM_unify_get? closed otherClosed merged x

end Merges

/-! ### The variables that are left -/

/-- The variables that an answer to the condition can bind and that are not bound yet, in the order
of their first occurrence. -/
def Condition.remaining (c : Condition) (s : Substitution) : List String :=
  c.freeVars.filter fun x => !s.domain.contains x

private theorem eraseDups_filter (keeps : String → Bool) (names : List String) :
    (names.filter keeps).eraseDups = names.eraseDups.filter keeps := by
  -- Erasing what equals the first name makes the list shorter.
  induction length : names.length using Nat.strongRecOn generalizing names with
  | ind n ih =>
      cases names with
      | nil => rfl
      | cons name rest =>
          have shorter : (rest.filter fun other => !other == name).length < n := by
            rw [← length, List.length_cons]
            exact Nat.lt_succ_of_le (List.length_filter_le _ _)
          have later := ih _ shorter _ rfl
          rw [List.eraseDups_cons, List.filter_cons, List.filter_cons, ← later,
            List.filter_filter]
          cases kept : keeps name with
          | true =>
              rw [if_pos rfl, if_pos rfl, List.eraseDups_cons, List.filter_filter]
              simp only [Bool.and_comm]
          | false =>
              have same : rest.filter (fun other => keeps other && !other == name) =
                  rest.filter keeps := by
                apply List.filter_congr
                intro other _
                by_cases equal : other = name
                · rw [equal, kept]
                  rfl
                · rw [beq_false_of_ne equal, Bool.not_false, Bool.and_true]
              rw [if_neg Bool.false_ne_true, if_neg Bool.false_ne_true, same]

section Closed

variable {s : Substitution} (closed : s.IsClosed)

private theorem Term.occurrencesAll_apply {ts : List Term} {keeps : String → Bool}
    (each : ∀ t ∈ ts, (t.apply s).occurrences = t.occurrences.filter keeps) :
    occurrencesAll (ts.map (·.apply s)) = (occurrencesAll ts).filter keeps := by
  induction ts with
  | nil => rfl
  | cons t ts ih =>
      obtain ⟨first, rest⟩ := List.forall_mem_cons.mp each
      rw [List.map_cons, occurrencesAll, occurrencesAll, List.filter_append, first, ih rest]

include closed

private theorem Term.occurrences_apply (t : Term) :
    (t.apply s).occurrences = t.occurrences.filter fun x => !s.domain.contains x := by
  induction t using nested with
  | var name =>
      change (s.value s.size name).occurrences = _
      rw [Substitution.value_eq closed]
      cases found : s.get? name with
      | none =>
          have absent := Substitution.get?_eq_none_iff.mp found
          simp [absent, Term.occurrences]
      | some term =>
          have present := Substitution.mem_domain_iff.mpr ⟨term, found⟩
          have empty := Term.isClosed_iff.mp (Substitution.isClosed_of_get? closed found)
          simp [present, empty, Term.occurrences]
  | atom | number | string => rfl
  | compound functor args ih =>
      rw [Term.apply, subst, substAll_eq_map]
      exact occurrencesAll_apply ih
  | list items ih =>
      rw [Term.apply, subst, substAll_eq_map]
      exact occurrencesAll_apply ih

/-- Instantiating a condition under closed bindings leaves the variables that are not bound. -/
theorem Condition.freeVars_apply (c : Condition) : (c.apply s).freeVars = c.remaining s := by
  have terms : ((c.apply s).literals.filter (·.positive)).map (·.formula) =
      ((c.literals.filter (·.positive)).map (·.formula)).map (·.apply s) := by
    simp only [Condition.apply, List.filter_map, List.map_map]
    rfl
  rw [Condition.freeVars, Term.freeVarsAll, terms,
    Term.occurrencesAll_apply fun t _ => t.occurrences_apply closed, eraseDups_filter]
  rfl

end Closed

/-! ### Values -/

namespace Evaluation

variable {incoming answer bindings : Substitution} {e : Evaluation} {c : Condition} {x : String}

/-- What an answer says of a variable that is not bound yet is what the variable comes to when the
answer is merged with the bindings at hand. -/
theorem valueOf_eq_apply (closed : incoming.IsClosed) (answerClosed : answer.IsClosed)
    (merged : incoming.combine answer = some bindings) (unbound : x ∉ incoming.domain) :
    valueOf answer x = (Term.var x).apply bindings := by
  have bindingsClosed := (Substitution.combine_closed closed answerClosed merged).1
  have taken : bindings.get? x = answer.get? x := by
    rw [Substitution.get?_combine closed answerClosed merged,
      Substitution.get?_eq_none_iff.mpr unbound, Option.none_or]
  have value : (Term.var x).apply bindings = (bindings.get? x).getD (.var x) :=
    Substitution.value_eq bindingsClosed x
  rw [value, taken, valueOf]
  cases found : answer.get? x with
  | none => rfl
  | some term =>
      exact Term.apply_of_closed (Substitution.isClosed_of_get? answerClosed found) answer

private theorem item_of_several {names : List String} (several : ∀ x, names ≠ [x]) :
    item names answer = .list (names.map (valueOf answer)) := by
  unfold item
  split
  · exact absurd rfl (several _)
  · rfl

/-- What is read off every answer may be read off the bindings that the answers make. -/
theorem map_answers (value reading : Substitution → Term)
    (combines : ∀ answer ∈ e.answers, (incoming.combine answer).isSome = true)
    (same : ∀ answer ∈ e.answers, ∀ bindings, incoming.combine answer = some bindings →
      value answer = reading bindings) :
    e.answers.map value = (e.instantiations incoming).map fun option =>
      reading option.substitution := by
  have merged := congrArg (List.map reading) (e.map_substitution incoming)
  rw [List.map_map, List.map_filterMap] at merged
  refine Eq.trans (Eq.symm ?_) merged.symm
  apply List.filterMap_eq_map_iff_forall_eq_some.mpr
  intro answer inside
  obtain ⟨bindings, found⟩ := Option.isSome_iff_exists.mp (combines answer inside)
  rw [found, same answer inside bindings found]
  rfl

private theorem length_instantiations
    (combines : ∀ answer ∈ e.answers, (incoming.combine answer).isSome = true) :
    (e.instantiations incoming).length = e.answers.length := by
  have same := map_answers (fun _ => .list []) (fun _ => .list []) combines fun _ _ _ _ => rfl
  have lengths := congrArg List.length same
  rw [List.length_map, List.length_map] at lengths
  exact lengths.symm

end Evaluation

/-- A listall rule whose condition holds fires once. Where the bindings at hand and the answers are
closed and all answers fit, its variable is bound to a list with an item for each way in which the
forall rule with the same condition would fire, in the same order. The item is what the variable
that the condition leaves comes to under the bindings of the forall rule, or the list of what all of
them come to if it leaves none or several. All other bindings stay as they are, and there are no
further ones. -/
theorem listall_agrees {rule : Rule} {name : String} {e : Evaluation} {incoming : Substitution}
    (listall : rule.kind = .listallDo name) (holds : e.holds = true) (closed : incoming.IsClosed)
    (combines : ∀ answer ∈ e.answers, (incoming.combine answer).isSome = true)
    (answersClosed : ∀ answer ∈ e.answers, answer.IsClosed) :
    ∃ (bindings : Substitution) (items : List Term),
      rule.instantiations e incoming = [{ substitution := bindings, focus := none }] ∧
      bindings = e.collect rule.condition name incoming ∧
      bindings.get? name = some (.list items) ∧
      (∀ x, x ≠ name → bindings.get? x = incoming.get? x) ∧
      let fired := { rule with kind := .forallDo : Rule }.instantiations e incoming
      let names := rule.condition.remaining incoming
      names = (rule.condition.apply incoming).freeVars ∧ items.length = fired.length ∧
      fired.length = e.answers.length ∧
      (∀ x, names = [x] → items = fired.map fun option => (Term.var x).apply option.substitution) ∧
      ((∀ x, names ≠ [x]) → items = fired.map fun option =>
        .list (names.map fun x => (Term.var x).apply option.substitution)) := by
  have forallFires : { rule with kind := .forallDo : Rule }.instantiations e incoming =
      e.instantiations incoming := by
    unfold Rule.instantiations
    rw [holds]
    rfl
  have left := Condition.freeVars_apply closed rule.condition
  have value {x : String} (remains : x ∈ rule.condition.remaining incoming) :
      ∀ answer ∈ e.answers, ∀ bindings, incoming.combine answer = some bindings →
        Evaluation.valueOf answer x = (Term.var x).apply bindings := by
    intro answer inside bindings merged
    apply Evaluation.valueOf_eq_apply closed (answersClosed answer inside) merged
    simpa using (List.mem_filter.mp remains).2
  refine ⟨_, e.answers.map (Evaluation.item (rule.condition.apply incoming).freeVars), ?_, rfl, ?_,
    ?_, left.symm, ?_, ?_, ?_, ?_⟩
  · unfold Rule.instantiations
    rw [listall]
  · exact (Substitution.get?_bind incoming name name _).trans (if_pos rfl)
  · intro x other
    exact (Substitution.get?_bind incoming name x _).trans (if_neg other)
  · rw [forallFires, Evaluation.length_instantiations combines, List.length_map]
  · rw [forallFires, Evaluation.length_instantiations combines]
  · intro x only
    have remains : x ∈ rule.condition.remaining incoming := by
      rw [only]
      exact List.mem_cons_self
    rw [forallFires, left, only]
    exact Evaluation.map_answers _ (Term.var x).apply combines (value remains)
  · intro several
    rw [forallFires, left]
    apply Evaluation.map_answers _ (fun bindings => .list
      ((rule.condition.remaining incoming).map fun x => (Term.var x).apply bindings)) combines
    intro answer inside bindings merged
    rw [Evaluation.item_of_several several]
    apply congrArg Term.list
    apply List.map_congr_left
    intro x remains
    exact value remains answer inside bindings merged

def piling : Rule :=
  .ofKind (.listallDo "L")
    ⟨[⟨true, .belief, .compound "on" [.var "X", .var "Y"]⟩,
      ⟨false, .belief, .compound "locked" [.var "Z"]⟩]⟩
    [.perform "pile" [.var "L"]]

def tabled : Substitution :=
  (Substitution.empty.bind "L" (.list [.atom "d"])).bind "Y" (.atom "table")

def blocks : Evaluation :=
  ⟨true, false, [⟨none, [Substitution.empty.bind "X" (.atom "c")]⟩,
    ⟨none, [(Substitution.empty.bind "X" (.atom "a")).bind "Y" (.atom "table")]⟩]⟩

theorem listall_agrees_of_piling :
    blocks.holds = true ∧ tabled.IsClosed ∧
    (∀ answer ∈ blocks.answers, (tabled.combine answer).isSome = true) ∧
    (∀ answer ∈ blocks.answers, answer.IsClosed) ∧
    ∃ bindings,
      piling.instantiations blocks tabled = [{ substitution := bindings, focus := none }] ∧
      bindings.get? "L" = some (.list [.atom "c", .atom "a"]) ∧
      bindings.get? "Y" = some (.atom "table") ∧ bindings.get? "X" = none := by
  have closed : tabled.IsClosed := by decide
  have combines : ∀ answer ∈ blocks.answers, (tabled.combine answer).isSome = true := by
    decide +kernel
  have answersClosed : ∀ answer ∈ blocks.answers, answer.IsClosed := by decide
  obtain ⟨bindings, items, fires, _, bound, others, _, _, _, only, _⟩ :=
    @listall_agrees piling "L" blocks tabled rfl rfl closed combines answersClosed
  refine ⟨rfl, closed, combines, answersClosed, bindings, fires, ?_, ?_, ?_⟩
  · rw [bound, only "X" rfl]
    rfl
  · exact others "Y" (by decide)
  · exact others "X" (by decide)

end CognitiveAgent
