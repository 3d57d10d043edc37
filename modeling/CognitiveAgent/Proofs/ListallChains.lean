import CognitiveAgent.Program.Construction
import CognitiveAgent.Proofs.Resolution
import CognitiveAgent.Run.Firing

/-!
Chains through the list of a listall rule. The rule binds its variable to the collected answers as
they are, with the variables that they leave open, and keeps the other bindings at hand. Main
statement: a variable comes to reach itself exactly if some answer leaves open a variable from which
the bindings at hand lead to the list variable. Then whatever leads to the list variable cannot be
instantiated; otherwise all of the rule's action can.
-/

set_option autoImplicit false

namespace CognitiveAgent

/-! ### A variable bound anew -/

namespace Substitution

variable {s m : Substitution} {x y z : String} {term : Term}

private theorem leads_iff (found : s.get? x = some term) : s.Leads x y ↔ y ∈ term.occurrences := by
  simp [Leads, found]

private theorem leads_bind_self : (s.bind x term).Leads x y ↔ y ∈ term.occurrences :=
  leads_iff ((get?_bind s x x term).trans (if_pos rfl))

private theorem leads_bind_of_ne (other : y ≠ x) : (s.bind x term).Leads y z ↔ s.Leads y z := by
  simp [Leads, get?_bind, other]

theorem Reaches.tail (reaches : s.Reaches x y) (leads : s.Leads y z) : s.Reaches x z := by
  induction reaches with
  | here => exact .step leads (.here z)
  | step first _ ih => exact .step first (ih leads)

private theorem transGen_iff :
    Relation.TransGen s.Leads x z ↔ ∃ y, s.Leads x y ∧ s.Reaches y z := by
  constructor
  · intro chain
    induction chain with
    | single leads => exact ⟨_, leads, .here _⟩
    | tail _ leads ih =>
        obtain ⟨y, first, onward⟩ := ih
        exact ⟨y, first, onward.tail leads⟩
  · rintro ⟨y, leads, onward⟩
    induction onward generalizing x with
    | here => exact .single leads
    | step next _ ih => exact (Relation.TransGen.single leads).trans (ih next)

/-- A chain that ends with a variable does not use the binding of that variable. -/
theorem Reaches.transfer (others : ∀ y z, y ≠ x → s.Leads y z → m.Leads y z)
    (reaches : s.Reaches y x) : m.Reaches y x := by
  induction reaches with
  | here => exact .here _
  | @step y z x leads _ ih =>
      by_cases same : y = x
      · rw [same]
        exact .here x
      · exact .step (others y z same leads) (ih others)

private theorem reaches_bind_iff : (s.bind x term).Reaches y x ↔ s.Reaches y x := by
  constructor
  · exact Reaches.transfer fun _ _ other => (leads_bind_of_ne other).mp
  · exact Reaches.transfer fun _ _ other => (leads_bind_of_ne other).mpr

/-- Away from the variable that is bound anew, all links are old ones and lead no nearer to it. -/
theorem Leads.away (leads : (s.bind x term).Leads y z) (away : ¬ s.Reaches y x) :
    s.Leads y z ∧ ¬ s.Reaches z x := by
  have other : y ≠ x := by
    rintro rfl
    exact away (.here y)
  have before := (leads_bind_of_ne other).mp leads
  exact ⟨before, fun reaches => away (.step before reaches)⟩

private theorem transGen_away (away : ¬ s.Reaches y x)
    (chain : Relation.TransGen (s.bind x term).Leads y z) :
    Relation.TransGen s.Leads y z ∧ ¬ s.Reaches z x := by
  induction chain with
  | single leads =>
      obtain ⟨before, stays⟩ := leads.away away
      exact ⟨.single before, stays⟩
  | tail _ leads ih =>
      obtain ⟨before, stays⟩ := leads.away ih.2
      exact ⟨ih.1.tail before, stays⟩

/-- Binding a variable anew, whether or not it was bound, closes a chain exactly if a variable of
the new term leads back to it. -/
theorem Acyclic.bind_iff (acyclic : s.Acyclic) :
    (s.bind x term).Acyclic ↔ ∀ y ∈ term.occurrences, ¬ s.Reaches y x := by
  constructor
  · intro after y occurs reaches
    exact after x (transGen_iff.mpr
      ⟨y, leads_bind_self.mpr occurs, reaches_bind_iff.mpr reaches⟩)
  · intro away
    -- A chain of old links may come to `x`; from there on it stays away from `x`.
    have passes {y z : String} (chain : Relation.TransGen (s.bind x term).Leads y z) :
        Relation.TransGen s.Leads y z ∨ ¬ s.Reaches z x := by
      induction chain with
      | @single z leads =>
          by_cases same : y = x
          · subst same
            exact .inr (away z (leads_bind_self.mp leads))
          · exact .inl (.single ((leads_bind_of_ne same).mp leads))
      | @tail z w _ leads ih =>
          rcases ih with old | stays
          · by_cases same : z = x
            · subst same
              exact .inr (away w (leads_bind_self.mp leads))
            · exact .inl (old.tail ((leads_bind_of_ne same).mp leads))
          · exact .inr (leads.away stays).2
    intro y cycle
    rcases passes cycle with old | stays
    · exact acyclic y old
    · exact acyclic y (transGen_away stays cycle).1

/-- What does not lead to the variable that is bound anew comes to what it came to before. -/
theorem Acyclic.resolves_bind (acyclic : s.Acyclic) {t : Term}
    (away : ∀ y ∈ t.occurrences, ¬ s.Reaches y x) : t.Resolves (s.bind x term) (t.apply s) := by
  have value (y : String) :
      ¬ s.Reaches y x → (Term.var y).Resolves (s.bind x term) ((Term.var y).apply s) := by
    induction y using acyclic.induction with
    | step y ih =>
        intro stays
        have other : y ≠ x := by
          rintro rfl
          exact stays (.here y)
        have kept : (s.bind x term).get? y = s.get? y :=
          (get?_bind s x y term).trans (if_neg other)
        cases found : s.get? y with
        | none =>
            rw [apply_of_unbound found]
            exact .free (kept.trans found)
        | some bound =>
            rw [acyclic.apply_of_bound found]
            apply Term.Resolves.bound (kept.trans found)
            apply Term.resolves_subst
            intro z occurs
            have leads : s.Leads y z := ⟨bound, found, occurs⟩
            exact ih z leads fun reaches => stays (.step leads reaches)
  exact Term.resolves_subst fun y occurs => value y (away y occurs)

end Substitution

namespace Term

open Substitution

variable {s : Substitution}

mutual

/-- Chains that can be followed to their ends pass no variable that reaches itself. -/
theorem Resolves.not_returns {t result : Term} : t.Resolves s result →
    ∀ x ∈ t.occurrences, ∀ y, s.Reaches x y → ¬ Relation.TransGen s.Leads y y
  | .free unbound, x, occurs, y, reaches, cycle => by
      obtain rfl := List.mem_singleton.mp occurs
      obtain rfl := reaches.eq_of_unbound unbound
      obtain ⟨_, ⟨term, found, _⟩, _⟩ := transGen_iff.mp cycle
      rw [unbound] at found
      cases found
  | .bound found rest, x, occurs, y, reaches, cycle => by
      obtain rfl := List.mem_singleton.mp occurs
      -- The way on, also that around a cycle, begins in the term that the variable is bound to.
      cases reaches with
      | here =>
          obtain ⟨z, leads, back⟩ := transGen_iff.mp cycle
          exact rest.not_returns z ((leads_iff found).mp leads) x back cycle
      | @step _ z _ leads onward =>
          exact rest.not_returns z ((leads_iff found).mp leads) y onward cycle
  | .atom _, _, occurs, _, _, _ | .number _, _, occurs, _, _, _
  | .string _, _, occurs, _, _, _ => by cases occurs
  | .compound _ all, x, occurs, y, reaches, cycle => all.not_returns x occurs y reaches cycle
  | .list all, x, occurs, y, reaches, cycle => all.not_returns x occurs y reaches cycle

private theorem ResolvesAll.not_returns {ts results : List Term} : ResolvesAll s ts results →
    ∀ x ∈ occurrencesAll ts, ∀ y, s.Reaches x y → ¬ Relation.TransGen s.Leads y y
  | .nil, _, occurs, _, _, _ => by cases occurs
  | .cons head rest, x, occurs, y, reaches, cycle => by
      rcases List.mem_append.mp occurs with here | later
      · exact head.not_returns x here y reaches cycle
      · exact rest.not_returns x later y reaches cycle

end

private theorem exists_resolvesAll_iff {ts : List Term} :
    (∃ results, ResolvesAll s ts results) ↔ ∃ result, (Term.list ts).Resolves s result := by
  constructor
  · rintro ⟨results, all⟩
    exact ⟨.list results, .list all⟩
  · rintro ⟨_, resolves⟩
    cases resolves with
    | list all => exact ⟨_, all⟩

end Term

/-- Where a chain has been closed, exactly what does not lead to it can be instantiated. -/
theorem Substitution.Acyclic.exists_resolves_bind_iff {s : Substitution} {x : String}
    {term t : Term} (acyclic : s.Acyclic) (loops : ¬ (s.bind x term).Acyclic) :
    (∃ result, t.Resolves (s.bind x term) result) ↔ ∀ y ∈ t.occurrences, ¬ s.Reaches y x := by
  constructor
  · rintro ⟨result, resolves⟩ y occurs reaches
    have back : ∃ z ∈ term.occurrences, s.Reaches z x := by
      simpa [acyclic.bind_iff] using loops
    obtain ⟨z, inside, returns⟩ := back
    apply resolves.not_returns y occurs x (reaches_bind_iff.mpr reaches)
    exact transGen_iff.mpr ⟨z, leads_bind_self.mpr inside, reaches_bind_iff.mpr returns⟩
  · intro away
    exact ⟨t.apply s, acyclic.resolves_bind away⟩

/-! ### The list -/

private theorem Term.mem_occurrencesAll_map {α : Type} {value : α → Term} {as : List α}
    {y : String} :
    y ∈ occurrencesAll (as.map value) ↔ ∃ a ∈ as, y ∈ (value a).occurrences := by
  simp only [mem_occurrencesAll, List.mem_map]
  constructor
  · rintro ⟨_, ⟨a, inside, rfl⟩, occurs⟩
    exact ⟨a, inside, occurs⟩
  · rintro ⟨a, inside, occurs⟩
    exact ⟨value a, ⟨a, inside, rfl⟩, occurs⟩

namespace Evaluation

variable {e : Evaluation} {c : Condition} {name : String} {incoming answer : Substitution}

/-- Some answer leads from a variable of the condition to one that it leaves open, and the bindings
at hand lead from there to the list variable. -/
def LeadsBack (e : Evaluation) (c : Condition) (name : String) (incoming : Substitution) : Prop :=
  ∃ answer ∈ e.answers, ∃ x ∈ (c.apply incoming).freeVars,
    ∃ y, y ∉ answer.domain ∧ answer.Reaches x y ∧ incoming.Reaches y name

private theorem valueOf_of_acyclic (acyclic : answer.Acyclic) (x : String) :
    valueOf answer x = (Term.var x).apply answer := by
  unfold valueOf
  cases found : answer.get? x with
  | none => exact (Substitution.apply_of_unbound found).symm
  | some term => exact (acyclic.apply_of_bound found).symm

private theorem mem_occurrences_item {names : List String} {y : String} :
    y ∈ (item names answer).occurrences ↔ ∃ x ∈ names, y ∈ (valueOf answer x).occurrences := by
  unfold item
  split
  · simp
  · exact Term.mem_occurrencesAll_map

/-- The variables of the list are those that the answers leave open. -/
theorem mem_occurrences_items (answersAcyclic : ∀ answer ∈ e.answers, answer.Acyclic)
    {names : List String} {y : String} :
    y ∈ (Term.list (e.answers.map (item names))).occurrences ↔
      ∃ answer ∈ e.answers, ∃ x ∈ names, y ∉ answer.domain ∧ answer.Reaches x y := by
  apply Term.mem_occurrencesAll_map.trans
  refine exists_congr fun answer => and_congr_right fun inside => ?_
  have acyclic := answersAcyclic answer inside
  simp only [mem_occurrences_item, valueOf_of_acyclic acyclic, acyclic.mem_occurrences_var]

private theorem collect_acyclic_iff (acyclic : incoming.Acyclic)
    (answersAcyclic : ∀ answer ∈ e.answers, answer.Acyclic) :
    (e.collect c name incoming).Acyclic ↔ ¬ e.LeadsBack c name incoming := by
  unfold collect
  rw [acyclic.bind_iff]
  constructor
  · rintro away ⟨answer, inside, x, remains, y, unbound, reaches, back⟩
    have occurs := (mem_occurrences_items answersAcyclic).mpr
      ⟨answer, inside, x, remains, unbound, reaches⟩
    exact away y occurs back
  · intro stays y occurs back
    obtain ⟨answer, inside, x, remains, unbound, reaches⟩ :=
      (mem_occurrences_items answersAcyclic).mp occurs
    exact stays ⟨answer, inside, x, remains, y, unbound, reaches, back⟩

end Evaluation

/-- Let no variable reach itself in the bindings at hand nor in any answer. Then the values that a
listall rule collects are found by following the answers to their ends, and the bindings with which
it fires close a chain exactly if they lead back to the list variable. If they do not, following the
chains of all terms of the rule's action ends in the instantiated action. If they do, it ends
exactly if no variable of the action leads to the list variable. -/
theorem listall_acyclicity {rule : Rule} {name : String} {e : Evaluation} {incoming : Substitution}
    (listall : rule.kind = .listallDo name) (acyclic : incoming.Acyclic)
    (answersAcyclic : ∀ answer ∈ e.answers, answer.Acyclic) :
    ∃ bindings : Substitution,
      rule.instantiations e incoming = [{ substitution := bindings, focus := none }] ∧
      bindings = e.collect rule.condition name incoming ∧
      (∀ answer ∈ e.answers, ∀ x ∈ (rule.condition.apply incoming).freeVars,
        (Term.var x).Resolves answer (Evaluation.valueOf answer x)) ∧
      (bindings.Acyclic ↔ ¬ e.LeadsBack rule.condition name incoming) ∧
      (¬ e.LeadsBack rule.condition name incoming →
        Term.ResolvesAll bindings (Combo.terms rule.combo)
          (Combo.terms (Combo.apply rule.combo bindings))) ∧
      (e.LeadsBack rule.condition name incoming →
        ((∃ results, Term.ResolvesAll bindings (Combo.terms rule.combo) results) ↔
          ∀ x ∈ Term.freeVarsAll (Combo.terms rule.combo), ¬ incoming.Reaches x name)) := by
  have closes : (e.collect rule.condition name incoming).Acyclic ↔
      ¬ e.LeadsBack rule.condition name incoming :=
    Evaluation.collect_acyclic_iff acyclic answersAcyclic
  refine ⟨_, ?_, rfl, ?_, closes, ?_, ?_⟩
  · unfold Rule.instantiations
    rw [listall]
  · intro answer inside x _
    rw [Evaluation.valueOf_of_acyclic (answersAcyclic answer inside)]
    exact Term.resolves_of_acyclic (answersAcyclic answer inside) (.var x)
  · intro stays
    rw [Combo.terms_apply]
    exact Term.resolvesAll_map fun t _ => Term.resolves_of_acyclic (closes.mpr stays) t
  · intro back
    have loops : ¬ (e.collect rule.condition name incoming).Acyclic :=
      fun remains => closes.mp remains back
    simp only [Term.freeVarsAll, List.mem_eraseDups]
    exact Term.exists_resolvesAll_iff.trans (acyclic.exists_resolves_bind_iff loops)

def reminding : Rule :=
  .ofKind (.listallDo "Loans") (.belief (.compound "lent" [.var "Thing", .var "Friend"]))
    [.perform "remind" [.var "Loans"], .insert (.var "Note")]

/-- An earlier list is known, and the note is about whatever has been lent on some date. -/
def noted : Substitution :=
  (Substitution.empty.bind "Note" (.compound "note" [.var "Loans", .var "Date"])).bind
    "Loans" (.list [])

def lent : Evaluation :=
  .ofAnswers
    [((Substitution.empty.bind "Thing" (.compound "copy" [.var "Book"])).bind
        "Book" (.atom "atlas")).bind "Friend" (.var "Someone"),
      (Substitution.empty.bind "Thing" (.atom "bike")).bind "Friend" (.atom "ann")]

def loans : Term :=
  .list [.list [.compound "copy" [.atom "atlas"], .var "Someone"],
    .list [.atom "bike", .atom "ann"]]

theorem listall_acyclicity_of_reminding :
    noted.Acyclic ∧ (∀ answer ∈ lent.answers, answer.Acyclic) ∧
    ¬ lent.LeadsBack reminding.condition "Loans" noted ∧
    ∃ bindings : Substitution,
      reminding.instantiations lent noted = [{ substitution := bindings, focus := none }] ∧
      bindings.Acyclic ∧ bindings.get? "Loans" = some loans ∧
      Term.ResolvesAll bindings (Combo.terms reminding.combo)
        [loans, .compound "note" [loans, .var "Date"]] := by
  have acyclic : noted.Acyclic :=
    (Substitution.acyclic_empty.bind (by decide) (by decide)).bind (by decide) (by decide)
  have answersAcyclic : ∀ answer ∈ lent.answers, answer.Acyclic := by
    intro answer inside
    rcases List.mem_cons.mp inside with rfl | later
    · exact ((Substitution.acyclic_empty.bind (by decide) (by decide)).bind
        (by decide) (by decide)).bind (by decide) (by decide)
    · obtain rfl := List.mem_singleton.mp later
      exact (Substitution.acyclic_empty.bind (by decide) (by decide)).bind (by decide) (by decide)
  have stays : ¬ lent.LeadsBack reminding.condition "Loans" noted := by
    rintro ⟨answer, inside, x, remains, y, unbound, reaches, back⟩
    have occurs := (Evaluation.mem_occurrences_items answersAcyclic).mpr
      ⟨answer, inside, x, remains, unbound, reaches⟩
    have someone : y = "Someone" := List.mem_singleton.mp occurs
    subst someone
    exact absurd (back.eq_of_unbound rfl) (by decide)
  obtain ⟨bindings, fires, same, _, closes, resolves, _⟩ :=
    @listall_acyclicity reminding "Loans" lent noted rfl acyclic answersAcyclic
  refine ⟨acyclic, answersAcyclic, stays, bindings, fires, closes.mpr stays, ?_, ?_⟩
  · rw [same]
    rfl
  · have ends := resolves stays
    rw [same] at ends ⊢
    exact ends

def rollCall : Rule :=
  .ofKind (.listallDo "L") (.belief (.compound "present" [.var "X"])) [.perform "greet" [.var "L"]]

def hosting : Module := { Module.ofName "hosting" with rules := [rollCall] }

/-- Anyone is present: the one who is found is again called `L`. -/
def anyone : Evaluation := .ofAnswers [Substitution.empty.bind "X" (.var "L")]

/-- An answer may leave open the very variable that the list is bound to. -/
theorem listall_loops :
    rollCall.kind = .listallDo "L" ∧ Substitution.empty.Acyclic ∧
    (∀ answer ∈ anyone.answers, answer.Acyclic ∧
      ∀ x ∈ (rollCall.condition.apply .empty).freeVars, x ∈ answer.domain) ∧
    ∃ bindings : Substitution,
      rollCall.instantiations anyone .empty = [{ substitution := bindings, focus := none }] ∧
      ¬ bindings.Acyclic ∧
      ∀ results, ¬ Term.ResolvesAll bindings (Combo.terms rollCall.combo) results := by
  have acyclic := Substitution.acyclic_empty
  have answersAcyclic : ∀ answer ∈ anyone.answers, answer.Acyclic := by
    intro answer inside
    obtain rfl := List.mem_singleton.mp inside
    exact acyclic.bind (by decide) (by decide)
  have loops : ¬ (anyone.collect rollCall.condition "L" .empty).Acyclic := by
    rw [Evaluation.collect_acyclic_iff acyclic answersAcyclic, Classical.not_not]
    exact ⟨_, List.mem_singleton_self _, "X", by decide, "L", by decide,
      .step ⟨.var "L", rfl, List.mem_singleton_self _⟩ (.here "L"), .here "L"⟩
  refine ⟨rfl, acyclic, ?_, _, rfl, loops, ?_⟩
  · intro answer inside
    refine ⟨answersAcyclic answer inside, ?_⟩
    revert answer
    decide
  · intro results all
    have ends := Term.exists_resolvesAll_iff.mp ⟨results, all⟩
    exact (acyclic.exists_resolves_bind_iff loops).mp ends "L" (by decide) (.here "L")

end CognitiveAgent
