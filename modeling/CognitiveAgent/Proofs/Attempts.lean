import CognitiveAgent.Proofs.Merging
import CognitiveAgent.Proofs.Occurrences
import CognitiveAgent.Run.Execution

/-!
Resumptions that may never return, next to those that take it for granted that they do. Whatever
returns, returns the same there and changes the situation alike. Main statement: a pop returns if no
variable reaches itself in the bindings that the top frame holds nor in those that it is answered,
and if what a learner chooses can be instantiated.
-/

set_option autoImplicit false

namespace CognitiveAgent

variable {σ ω α β : Type}

/-! ### Bindings in which no variable reaches itself -/

namespace Substitution.Acyclic

variable {s : Substitution} (acyclic : s.Acyclic)
include acyclic

theorem all_resolve (ts : List Term) : ts.all s.resolves = true :=
  List.all_eq_true.mpr fun t _ => acyclic.resolves t

theorem mergeEnds (bindings : List (String × Term)) : s.mergeEnds bindings = true := by
  induction bindings generalizing s with
  | nil => rfl
  | cons binding rest ih =>
      rw [Substitution.mergeEnds, acyclic.resolves, acyclic.resolves, Bool.true_and, Bool.true_and]
      split
      · rfl
      · rename_i merged unified
        exact ih ((Term.reads_unify acyclic _ _).extends acyclic unified).1

theorem combined {other merged : Substitution} (combined : s.combine other = some merged) :
    merged.Acyclic :=
  ((Substitution.combine_reads acyclic other).extends acyclic combined).1

theorem extended {e : Evaluation} {bindings : Substitution}
    (extended : e.extend? s = some bindings) : bindings.Acyclic := by
  unfold Evaluation.extend? at extended
  split at extended
  · split at extended
    · cases extended
      exact acyclic
    · obtain ⟨answer, _, merged⟩ := List.exists_of_findSome?_eq_some extended
      exact acyclic.combined merged
  · cases extended

theorem instantiationsEnd (e : Evaluation) : e.instantiationsEnd s = true := by
  simp only [Evaluation.instantiationsEnd, List.all_eq_true, Bool.and_eq_true]
  refine fun group _ answer _ => ⟨acyclic.mergeEnds answer.bindings, ?_⟩
  rw [Option.all_eq_true]
  intro bindings merged
  have resolves : group.goal.all bindings.resolves = true := by
    rw [Option.all_eq_true]
    exact fun goal _ => (acyclic.combined merged).resolves goal
  rw [resolves, Bool.or_true]

theorem extendEnds (e : Evaluation) : e.extendEnds s = true := by
  have search (answers : List Substitution) : Evaluation.searchEnds s answers = true := by
    induction answers with
    | nil => rfl
    | cons answer rest ih => rw [Evaluation.searchEnds, acyclic.mergeEnds, ih, Bool.or_true]; rfl
  rw [Evaluation.extendEnds, search, Bool.or_true]

theorem bindCallEnds (m : Module) (actuals : List Term) : m.bindCallEnds actuals s = true := by
  have matching (pairs : List (Term × Term)) :
      ∀ {bound : Substitution}, bound.Acyclic → Module.matchEnds s pairs bound = true := by
    induction pairs with
    | nil => exact fun _ => rfl
    | cons pair rest ih =>
        intro bound boundAcyclic
        obtain ⟨formal, actual⟩ := pair
        rw [Module.matchEnds, acyclic.resolves, boundAcyclic.resolves, Bool.true_and,
          Bool.true_and]
        split
        · exact Bool.or_true _
        · rename_i unifier _
          rw [boundAcyclic.mergeEnds, Bool.true_and]
          split
          · exact Bool.or_true _
          · rename_i extended merged
            rw [ih (boundAcyclic.combined merged), Bool.or_true]
  rw [Module.bindCallEnds, matching _ Substitution.acyclic_empty, Bool.or_true]

end Substitution.Acyclic

private theorem Evaluation.collectEnds_of_acyclic {e : Evaluation}
    (acyclic : ∀ answer ∈ e.answers, answer.Acyclic) (names : List String) :
    e.collectEnds names = true := by
  simp only [collectEnds, List.all_eq_true, Option.all_eq_true]
  exact fun answer given _ _ term _ => (acyclic answer given).resolves term

private theorem Rule.instantiationsEnd_of_acyclic {rule : Rule} {e : Evaluation}
    {incoming : Substitution}
    (acyclic : incoming.Acyclic) (answersAcyclic : ∀ answer ∈ e.answers, answer.Acyclic) :
    rule.instantiationsEnd e incoming = true := by
  unfold Rule.instantiationsEnd
  split
  · exact Evaluation.collectEnds_of_acyclic answersAcyclic _
  · rw [acyclic.instantiationsEnd, Bool.or_true]
  · rw [acyclic.instantiationsEnd, Bool.or_true]

/-- What is answered lets an interpreter go on: in answers to conditions and in the steps of plans
no variable reaches itself, and the combo that a learner chooses can be instantiated. -/
def Occurrence.Tame : Occurrence → Prop
  | .exchange (.evaluate _ _) (.ok e) => ∀ answer ∈ e.answers, answer.Acyclic
  | .exchange (.plan _ _) (.ok (some plan)) => ∀ step ∈ plan, step.substitution.Acyclic
  | .exchange (.choose _ candidates) chosen => ∀ c ∈ candidates[chosen]?, c.resolves = true
  | _ => True

def StrategyState.planned : StrategyState → List Substitution
  | .plans state => (state.plan.getD []).map (·.substitution)
  | .passes _ | .choices _ => []

theorem StrategyState.planned_start (strategy : Strategy) :
    (StrategyState.start strategy).planned = [] := by
  cases strategy <;> rfl

def Frame.substitutions : Frame → List Substitution
  | .module g => g.activation.substitution :: g.strategy.planned
  | .rule g => g.substitution :: (g.pending.getD []).map (·.substitution)
  | .combo c => [c.substitution]
  | .action x => [x.substitution]
  | .hole => []

/-! ### A logic of attempts -/

namespace Attempt

/-- The attempt does what the computation does, unless it never returns. It returns under the
precondition, and with a value as stated, as long as all that the computation notes is tame. -/
def Follows (tame : Occurrence → Prop) (attempt : Attempt σ ω α) (computation : Exec σ ω α)
    (noting : Exec σ (List Occurrence) α) (pre : Prop) (post : α → Prop) : Prop :=
  ∀ s t, s.Alike t →
    ((computation s).1 = (noting t).1 ∧ (computation s).2.Alike (noting t).2) ∧
    (attempt s = none ∨ attempt s = some (computation s)) ∧
    ∃ seen, (noting t).2.record = t.record ++ seen ∧
      (pre → (∀ o ∈ seen, tame o) → attempt s = some (computation s) ∧ post (computation s).1)

variable {tame : Occurrence → Prop} {attempt : Attempt σ ω α} {computation : Exec σ ω α}
variable {noting : Exec σ (List Occurrence) α} {pre : Prop} {post : α → Prop}

theorem bind_of_none {s : Situation σ ω} (never : attempt s = none) (next : α → Attempt σ ω β) :
    (attempt >>= next) s = none := by
  change (attempt s).bind (fun left => next left.1 left.2) = _
  rw [never]
  rfl

theorem bind_of_some {s : Situation σ ω} {left : α × Situation σ ω}
    (returned : attempt s = some left) (next : α → Attempt σ ω β) :
    (attempt >>= next) s = next left.1 left.2 := by
  change (attempt s).bind (fun left => next left.1 left.2) = _
  rw [returned]
  rfl

private theorem follows_pure {value : α} (here : pre → post value) :
    Follows tame (pure value : Attempt σ ω α) (pure value) (pure value) pre post :=
  fun _ t alike => ⟨⟨rfl, alike⟩, .inr rfl, [], (List.append_nil t.record).symm,
    fun holds _ => ⟨rfl, here holds⟩⟩

theorem Follows.bind {next : α → Attempt σ ω β} {after : α → Exec σ ω β}
    {notingAfter : α → Exec σ (List Occurrence) β} {last : β → Prop}
    (first : Follows tame attempt computation noting pre post)
    (rest : ∀ value,
      Follows tame (next value) (after value) (notingAfter value) (pre ∧ post value) last) :
    Follows tame (attempt >>= next) (computation >>= after) (noting >>= notingAfter) pre last := by
  intro s t alike
  obtain ⟨⟨same, now⟩, returns, seen, noted, good⟩ := first s t alike
  obtain ⟨later, alsoReturns, more, alsoNoted, alsoGood⟩ :=
    rest (computation s).1 (computation s).2 (noting t).2 now
  have whole : (noting >>= notingAfter) t = notingAfter (computation s).1 (noting t).2 := by
    rw [Exec.bind_apply, same]
  rw [whole]
  refine ⟨later, ?_, seen ++ more, ?_, fun holds all => ?_⟩
  · rcases returns with never | returned
    · exact .inl (bind_of_none never next)
    · rw [bind_of_some returned]
      exact alsoReturns
  · rw [alsoNoted, noted, List.append_assoc]
  · obtain ⟨returned, here⟩ := good holds fun o member => all o (List.mem_append_left more member)
    rw [bind_of_some returned]
    exact alsoGood ⟨holds, here⟩ fun o member => all o (List.mem_append_right seen member)

theorem Follows.provided {ends : Bool} (follows : Follows tame attempt computation noting pre post)
    (here : pre → ends = true) :
    Follows tame (provided ends >>= fun _ => attempt) computation noting pre post := by
  intro s t alike
  obtain ⟨mirrored, returns, seen, noted, good⟩ := follows s t alike
  cases ends with
  | true => exact ⟨mirrored, returns, seen, noted, good⟩
  | false => exact ⟨mirrored, .inl rfl, seen, noted, fun holds => nomatch here holds⟩

theorem Follows.weaken {stronger : Prop}
    (follows : Follows tame attempt computation noting pre post) (implies : stronger → pre) :
    Follows tame attempt computation noting stronger post := by
  intro s t alike
  obtain ⟨mirrored, returns, seen, noted, good⟩ := follows s t alike
  exact ⟨mirrored, returns, seen, noted, fun holds => good (implies holds)⟩

end Attempt

open Attempt (Follows follows_pure)

private theorem ChoiceState.absorb_substitution (state : ChoiceState) (a : Activation)
    (previous : Option RunResult) :
    (state.absorb a previous).1.substitution = a.substitution := by
  unfold absorb
  cases previous with
  | none => rfl
  | some result => cases state.awaiting <;> rfl

namespace PlanState

private theorem absorb_plan (state : PlanState) (a : Activation) (previous : Option RunResult) :
    ∀ step ∈ (state.absorb a previous).2.plan.getD [], step ∈ state.plan.getD [] := by
  unfold absorb
  cases previous with
  | none => exact fun _ left => left
  | some result =>
      dsimp only
      split
      · cases result.performedAction with
        | true => exact fun _ left => left
        | false => exact fun _ left => nomatch left
      · exact fun _ left => left

private theorem mem_of_take? {state : PlanState} {taken : PlanStep × PlanState}
    (took : state.take? = some taken) : taken.1 ∈ state.plan.getD [] := by
  unfold take? at took
  split at took
  next step rest planned =>
    cases took
    rw [planned]
    exact List.mem_cons_self
  next => cases took
  next => cases took

end PlanState

namespace Setting

variable (S : Setting σ ω) {tame : Occurrence → Prop} {pre : Prop}

theorem mirrors_growing (base : List Occurrence) :
    S.traced.Mirrors S.traced fun s t => s = t ∧ base <+: s.record where
  program := rfl
  defaultOrder := rfl
  ask := by
    rintro request s _ ⟨rfl, grown⟩
    exact ⟨rfl, rfl, grown.trans (List.prefix_append _ _)⟩
  tell := by
    rintro event s _ ⟨rfl, grown⟩
    exact ⟨rfl, rfl, grown.trans (List.prefix_append _ _)⟩
  log := by
    rintro term s _ ⟨rfl, grown⟩
    exact ⟨rfl, rfl, grown.trans (List.prefix_append _ _)⟩
  shuffle := by
    rintro _ items s _ ⟨rfl, grown⟩
    exact ⟨rfl, rfl, grown⟩
  enter := by
    rintro name s _ ⟨rfl, grown⟩
    exact ⟨rfl, rfl, grown⟩
  leave := by
    rintro name s _ ⟨rfl, grown⟩
    exact ⟨rfl, rfl, grown⟩

/-- What instantiates nothing is attempted as it is. -/
theorem follows_mirrored {x : (υ : Type) → Setting σ υ → Exec σ υ α} {post : α → Prop}
    (mirrored : ∀ {ω υ : Type} {T : Setting σ ω} {U : Setting σ υ}
      {related : Situation σ ω → Situation σ υ → Prop}, T.Mirrors U related →
        Exec.Agree related (x ω T) (x υ U))
    (returns : (x ω S).Returns post) :
    Follows tame (Attempt.ofExec (x ω S)) (x ω S) (x _ S.traced) pre post := by
  intro s t alike
  obtain ⟨seen, noted⟩ := (mirrored (S.mirrors_growing t.record) t t ⟨rfl, List.prefix_rfl⟩).2.2
  exact ⟨mirrored S.mirrors_traced s t alike, .inr rfl, seen, noted.symm,
    fun _ _ => ⟨rfl, returns s⟩⟩

private theorem ask_follows (request : Request) :
    Follows tame (Attempt.ofExec (S.ask request)) (S.ask request) (S.traced.ask request) pre
      fun answer => tame (.exchange request answer) := by
  intro s t alike
  obtain ⟨same, now⟩ := S.mirrors_traced.ask request s t alike
  refine ⟨⟨same, now⟩, .inr rfl, [.exchange request (S.traced.ask request t).1], rfl,
    fun _ all => ⟨rfl, ?_⟩⟩
  rw [same]
  exact all _ (List.mem_singleton_self _)

private theorem emit_follows (channel : Channel) (subject : String) (source : Option Location)
    (template : String) (arguments : List String) :
    Follows tame (Attempt.ofExec (S.emit channel subject source template arguments))
      (S.emit channel subject source template arguments)
      (S.traced.emit channel subject source template arguments) pre fun _ => True :=
  S.follows_mirrored (x := fun _ T => T.emit channel subject source template arguments)
    (fun mirrors => mirrors.tell _) (Exec.returns_any _)

/-! ### Rules and actions -/

private theorem instantiate?_follows (rule : Rule) (incoming : Substitution) :
    Follows Occurrence.Tame (S.instantiate? rule incoming) (S.instantiate rule incoming)
      (S.traced.instantiate rule incoming) incoming.Acyclic fun _ => True := by
  refine Follows.provided ?_ fun acyclic => acyclic.all_resolve _
  refine (S.emit_follows _ _ _ _ _).bind fun _ => ?_
  refine (S.ask_follows _).bind fun answer => ?_
  cases answer with
  | error fault => exact follows_pure fun _ => trivial
  | ok e =>
      refine Follows.provided (follows_pure fun _ => trivial) fun holds => ?_
      exact Rule.instantiationsEnd_of_acyclic holds.1.1 holds.2

private theorem resumeRule?_follows (f : RuleFrame) (previous : Option RunResult) :
    Follows Occurrence.Tame (S.resumeRule? f previous) (S.resumeRule f previous)
      (S.traced.resumeRule f previous) f.substitution.Acyclic fun _ => True := by
  unfold resumeRule?
  cases pending : f.pending with
  | some options =>
      exact S.follows_mirrored (x := fun _ T => T.resumeRule f previous)
        (fun mirrors => mirrors.resumeRule (mirrors.shufflesAlike _) previous) (Exec.returns_any _)
  | none =>
      unfold resumeRule
      rw [pending]
      refine (S.instantiate?_follows f.rule f.substitution).bind fun answer => ?_
      cases answer with
      | error failure => exact follows_pure fun _ => trivial
      | ok options =>
          refine (S.follows_mirrored (x := fun _ _ => arrange f.order options)
            (fun mirrors => (mirrors.shufflesAlike _).arrange options)
            (Exec.returns_any _)).bind fun options => ?_
          exact S.follows_mirrored (x := fun _ T => T.fire f options)
            (fun mirrors => mirrors.fire f options) (Exec.returns_any _)

private theorem userBindings?_follows (action : UserAction) (s : Substitution) :
    Follows tame (S.userBindings? action s) (S.userBindings action s)
      (S.traced.userBindings action s) s.Acyclic
      fun found => ∀ bindings, found = .ok (some bindings) → bindings.Acyclic := by
  unfold userBindings? userBindings
  split
  · refine follows_pure fun acyclic bindings same => ?_
    cases same
    exact acyclic
  · refine Follows.provided ?_ fun acyclic => acyclic.all_resolve _
    refine (S.emit_follows _ _ _ _ _).bind fun _ => ?_
    refine (S.ask_follows _).bind fun answer => ?_
    cases answer with
    | error fault => exact follows_pure fun _ bindings same => nomatch same
    | ok e =>
        refine Follows.provided (follows_pure fun holds bindings same => ?_) fun holds =>
          holds.1.1.extendEnds e
        exact holds.1.1.extended (Except.ok.inj same)

/-- Whatever is answered to its precondition, a user action can be performed under bindings in which
no variable reaches itself. -/
theorem performUser?_follows (action : UserAction) (s : Substitution) :
    Follows tame (S.performUser? action s) (S.performUser action s) (S.traced.performUser action s)
      s.Acyclic fun _ => True := by
  refine (S.userBindings?_follows action s).bind fun found => ?_
  match found with
  | .error fault | .ok none => exact follows_pure fun _ => trivial
  | .ok (some bindings) =>
      refine Follows.provided ?_ fun holds => (holds.2 bindings rfl).all_resolve _
      exact S.follows_mirrored (x := fun _ T => T.carryOut (action.apply bindings))
        (fun mirrors => mirrors.carryOut _) (Exec.returns_any _)

theorem performUser?_eq (action : UserAction) (s : Substitution) (situation : Situation σ ω) :
    S.performUser? action s situation = none ∨
      S.performUser? action s situation = some (S.performUser action s situation) := by
  have follows : Follows Occurrence.Tame _ _ _ _ _ := S.performUser?_follows action s
  exact (follows situation situation.unseen situation.alike_unseen).2.1

theorem performUser?_returns {s : Substitution} (acyclic : s.Acyclic) (action : UserAction)
    (situation : Situation σ ω) :
    S.performUser? action s situation = some (S.performUser action s situation) := by
  have follows : Follows (fun _ => True) _ _ _ _ _ := S.performUser?_follows action s
  obtain ⟨_, _, _, _, good⟩ := follows situation situation.unseen situation.alike_unseen
  exact (good acyclic fun _ _ => trivial).1

private theorem callEnds_of_acyclic {caller : Substitution} (acyclic : caller.Acyclic)
    (target : CallTarget) (params : List Term) : S.callEnds target params caller = true := by
  unfold callEnds
  split
  · rfl
  · exact acyclic.bindCallEnds _ params

private theorem resumeAction?_follows (f : ActionFrame) (previous : Option RunResult) :
    Follows Occurrence.Tame (S.resumeAction? f previous) (S.resumeAction f previous)
      (S.traced.resumeAction f previous) f.substitution.Acyclic fun _ => True := by
  have plain : Follows Occurrence.Tame (Attempt.ofExec (S.resumeAction f previous))
      (S.resumeAction f previous) (S.traced.resumeAction f previous) f.substitution.Acyclic
      fun _ => True :=
    S.follows_mirrored (x := fun _ T => T.resumeAction f previous)
      (fun mirrors => mirrors.resumeAction f previous) (Exec.returns_any _)
  unfold resumeAction?
  cases called : f.called with
  | some anonymous => exact plain
  | none =>
      cases kind : f.action with
      | user action =>
          unfold resumeAction
          rw [called, kind]
          exact (S.performUser?_follows action f.substitution).bind fun _ =>
            follows_pure fun _ => trivial
      | mental action => exact plain.provided fun acyclic => acyclic.all_resolve _
      | call target params source =>
          exact plain.provided fun acyclic => S.callEnds_of_acyclic acyclic target params

/-! ### Modules -/

section Modules

variable (a : Activation)

private theorem mustStop_follows :
    Follows tame (Attempt.ofExec (S.mustStop a)) (S.mustStop a) (S.traced.mustStop a) pre
      fun _ => True :=
  S.follows_mirrored (x := fun _ T => T.mustStop a) (fun mirrors => mirrors.mustStop a)
    (Exec.returns_any _)

private theorem exitHolds_follows :
    Follows tame (Attempt.ofExec (S.exitHolds a)) (S.exitHolds a) (S.traced.exitHolds a) pre
      fun _ => True :=
  S.follows_mirrored (x := fun _ T => T.exitHolds a) (fun mirrors => mirrors.exitHolds a)
    (Exec.returns_any _)

private theorem nextPass_follows :
    Follows tame (Attempt.ofExec (S.nextPass a)) (S.nextPass a) (S.traced.nextPass a) pre
      fun later => later.substitution = a.substitution := by
  refine S.follows_mirrored (x := fun _ T => T.nextPass a) (fun mirrors => mirrors.nextPass a) ?_
  intro situation
  unfold nextPass
  split <;> rfl

private theorem reportReward_follows :
    Follows tame (Attempt.ofExec (S.reportReward a)) (S.reportReward a) (S.traced.reportReward a)
      pre fun _ => True :=
  S.follows_mirrored (x := fun _ T => T.reportReward a) (fun mirrors => mirrors.reportReward a)
    (Exec.returns_any _)

/-- Leaving a module, with the strategy in a given state. -/
theorem leaving_follows {ρ : Type} (state : ρ) :
    Follows tame
      (do let (left, outcome) ← S.finish a
          return (left, state, outcome) : Attempt σ ω (Activation × ρ × Outcome))
      (do let (left, outcome) ← S.finish a
          return (left, state, outcome) : Exec σ ω (Activation × ρ × Outcome))
      (do let (left, outcome) ← S.traced.finish a
          return (left, state, outcome) : Exec σ (List Occurrence) (Activation × ρ × Outcome))
      pre fun _ => True := by
  have finished : Follows tame (Attempt.ofExec (S.finish a)) (S.finish a) (S.traced.finish a) pre
      fun _ => True :=
    S.follows_mirrored (x := fun _ T => T.finish a) (fun mirrors => mirrors.finish a)
      (Exec.returns_any _)
  exact finished.bind fun _ => follows_pure fun _ => trivial

private theorem insertAll_follows (s : Substitution) (beliefs : List Term) :
    Follows tame (updateAll? (fun belief => S.ask (.insert belief)) s beliefs)
      (S.insertAll (beliefs.map (·.apply s))) (S.traced.insertAll (beliefs.map (·.apply s)))
      s.Acyclic fun _ => True := by
  induction beliefs with
  | nil => exact follows_pure fun _ => trivial
  | cons belief rest ih =>
      refine Follows.provided ?_ fun acyclic => acyclic.resolves belief
      refine (S.ask_follows (.insert (belief.apply s))).bind fun answer => ?_
      cases answer with
      | error fault => exact follows_pure fun _ => trivial
      | ok update => exact ih.weaken And.left

private theorem adoptAll_follows (s : Substitution) (goals : List Term) :
    Follows tame (updateAll? (fun goal => S.ask (.adopt goal)) s goals)
      (S.adoptAll (goals.map (·.apply s))) (S.traced.adoptAll (goals.map (·.apply s)))
      s.Acyclic fun _ => True := by
  induction goals with
  | nil => exact follows_pure fun _ => trivial
  | cons goal rest ih =>
      refine Follows.provided ?_ fun acyclic => acyclic.resolves goal
      refine (S.ask_follows (.adopt (goal.apply s))).bind fun answer => ?_
      cases answer with
      | error fault => exact follows_pure fun _ => trivial
      | ok update => exact ih.weaken And.left

private theorem furnish?_follows :
    Follows tame (S.furnish? a) (S.furnish a) (S.traced.furnish a) a.substitution.Acyclic
      fun _ => True := by
  refine (S.follows_mirrored (x := fun _ T => T.enterFocus a.module a.focus)
    (fun mirrors => mirrors.enterFocus _ _) (Exec.returns_any _)).bind fun entered => ?_
  cases entered with
  | error fault => exact follows_pure fun _ => trivial
  | ok _ =>
      refine ((S.insertAll_follows a.substitution a.module.beliefs).weaken And.left).bind
        fun inserted => ?_
      cases inserted with
      | error fault => exact follows_pure fun _ => trivial
      | ok _ => exact (S.adoptAll_follows a.substitution a.module.goals).weaken (·.1.1)

private theorem prepare?_follows :
    Follows tame (S.prepare? a) (S.prepare a) (S.traced.prepare a) a.substitution.Acyclic
      fun left => left.1.substitution = a.substitution := by
  refine (S.furnish?_follows _).bind fun furnished => ?_
  cases furnished with
  | error fault => exact follows_pure fun _ => rfl
  | ok _ =>
      refine (S.follows_mirrored (x := fun _ _ => Situation.enter a.module.name)
        (fun mirrors => mirrors.enter _) (Exec.returns_any _)).bind fun _ => ?_
      exact (S.emit_follows _ _ _ _ _).bind fun _ => follows_pure fun _ => rfl

private theorem candidatesOf?_follows (incoming : Substitution) (rules : List (Rule × Nat)) :
    Follows Occurrence.Tame (S.candidatesOf? incoming rules) (S.candidatesOf incoming rules)
      (S.traced.candidatesOf incoming rules) incoming.Acyclic fun _ => True := by
  induction rules with
  | nil => exact follows_pure fun _ => trivial
  | cons numbered rest ih =>
      refine (S.instantiate?_follows numbered.1 incoming).bind fun found => ?_
      cases found with
      | error failure => exact follows_pure fun _ => trivial
      | ok options =>
          refine (ih.weaken And.left).bind fun others => ?_
          cases others <;> exact follows_pure fun _ => trivial

private theorem decide?_follows (candidates : List Candidate) :
    Follows Occurrence.Tame (S.decide? a candidates) (S.decide a candidates)
      (S.traced.decide a candidates) pre fun _ => True := by
  refine (S.ask_follows (.choose a.module.name candidates)).bind fun chosen => ?_
  cases choice : candidates[chosen]? with
  | none => exact follows_pure fun _ => trivial
  | some chosen =>
      refine Follows.provided ?_ fun holds => holds.2 chosen choice
      exact (S.emit_follows _ _ _ _ _).bind fun _ => follows_pure fun _ => trivial

private theorem offer?_follows :
    Follows Occurrence.Tame (S.offer? a) (S.offer a) (S.traced.offer a)
      a.substitution.Acyclic fun _ => True := by
  refine (S.candidatesOf?_follows a.substitution a.module.rules.zipIdx).bind fun found => ?_
  match found with
  | .error failure => exact follows_pure fun _ => trivial
  | .ok [] =>
      exact S.follows_mirrored (x := fun _ T => T.pause a) (fun mirrors => mirrors.pause a)
        (Exec.returns_any _)
  | .ok (candidate :: rest) => exact S.decide?_follows a (candidate :: rest)

private theorem settle?_follows :
    Follows Occurrence.Tame (S.settle? a) (S.settle a) (S.traced.settle a) a.substitution.Acyclic
      fun _ => True := by
  refine (S.reportReward_follows a).bind fun _ => ?_
  refine (S.mustStop_follows a).bind fun stop => ?_
  cases stop with
  | true => exact S.leaving_follows a _
  | false =>
      refine (S.exitHolds_follows a).bind fun holds => ?_
      cases holds with
      | true => exact S.leaving_follows a _
      | false =>
          refine (S.nextPass_follows a).bind fun later => (S.offer?_follows later).weaken ?_
          exact fun holds => holds.2 ▸ holds.1.1.1.1

private theorem resumeChoices?_follows (state : ChoiceState) (previous : Option RunResult) :
    Follows Occurrence.Tame (S.resumeChoices? a state previous) (S.resumeChoices a state previous)
      (S.traced.resumeChoices a state previous) a.substitution.Acyclic fun _ => True := by
  unfold resumeChoices? resumeChoices
  rw [← state.absorb_substitution a previous]
  obtain ⟨now, stage⟩ := state.absorb a previous
  have goesOn : Follows Occurrence.Tame
      (do if ← S.mustStop now then
            let (left, outcome) ← S.finish now
            return (left, {}, outcome)
          else S.offer? now : Attempt σ ω (Activation × ChoiceState × Outcome))
      (do if ← S.mustStop now then
            let (left, outcome) ← S.finish now
            return (left, {}, outcome)
          else S.offer now : Exec σ ω (Activation × ChoiceState × Outcome))
      (do if ← S.traced.mustStop now then
            let (left, outcome) ← S.traced.finish now
            return (left, {}, outcome)
          else S.traced.offer now : Exec σ (List Occurrence) (Activation × ChoiceState × Outcome))
      now.substitution.Acyclic fun _ => True := by
    refine (S.mustStop_follows now).bind fun stop => ?_
    cases stop with
    | true => exact S.leaving_follows now _
    | false => exact (S.offer?_follows now).weaken And.left
  cases stage with
  | idle => exact goesOn
  | passed chose =>
      cases chose with
      | true => exact S.settle?_follows now
      | false => exact goesOn
  | acted =>
      refine (S.mustStop_follows now).bind fun stop => ?_
      cases stop with
      | true => exact (S.reportReward_follows now).bind fun _ => S.leaving_follows now _
      | false =>
          dsimp only
          rw [show S.traced.eventPass now = S.eventPass now from rfl]
          cases S.eventPass now with
          | some frames => exact follows_pure fun _ => trivial
          | none => exact (S.settle?_follows now).weaken And.left

private theorem runStep?_follows (step : PlanStep) :
    Follows Occurrence.Tame (S.runStep? a step) (S.runStep a step) (S.traced.runStep a step)
      step.substitution.Acyclic fun _ => True := by
  refine Follows.provided ?_ fun acyclic => acyclic.all_resolve _
  exact S.follows_mirrored (x := fun _ T => T.runStep a step)
    (fun mirrors => mirrors.runStep a step) (Exec.returns_any _)

private theorem replan?_follows (state : PlanState) :
    Follows Occurrence.Tame (S.replan? a state) (S.replan a state) (S.traced.replan a state) pre
      fun _ => True := by
  refine (S.ask_follows (.plan a.module a.substitution)).bind fun answer => ?_
  cases answer with
  | error fault => exact follows_pure fun _ => trivial
  | ok plan =>
      refine (S.emit_follows _ _ _ _ _).bind fun _ => ?_
      match plan with
      | none | some [] => exact follows_pure fun _ => trivial
      | some (step :: rest) =>
          refine ((S.runStep?_follows a step).weaken fun holds => ?_).bind fun _ =>
            follows_pure fun _ => trivial
          exact holds.1.2 step List.mem_cons_self

private theorem resumePlans?_follows (state : PlanState) (previous : Option RunResult) :
    Follows Occurrence.Tame (S.resumePlans? a state previous) (S.resumePlans a state previous)
      (S.traced.resumePlans a state previous)
      (∀ s ∈ (StrategyState.plans state).planned, s.Acyclic) fun _ => True := by
  unfold resumePlans? resumePlans
  have left (acyclic : ∀ s ∈ (StrategyState.plans state).planned, s.Acyclic) :
      ∀ step ∈ (state.absorb a previous).2.plan.getD [], step.substitution.Acyclic :=
    fun step left => acyclic _ (List.mem_map_of_mem (state.absorb_plan a previous step left))
  refine Follows.weaken ?_ left
  clear left
  obtain ⟨now, state⟩ := state.absorb a previous
  refine (S.mustStop_follows now).bind fun stop => ?_
  cases stop with
  | true => exact S.leaving_follows now _
  | false =>
      dsimp only
      cases taken : state.take? with
      | some taking =>
          refine ((S.runStep?_follows now taking.1).weaken fun holds => ?_).bind fun _ =>
            follows_pure fun _ => trivial
          exact holds.1 _ (PlanState.mem_of_take? taken)
      | none =>
          cases planned : state.plannedBefore with
          | false => exact S.replan?_follows now _
          | true =>
              refine (S.exitHolds_follows now).bind fun holds => ?_
              cases holds with
              | true => exact S.leaving_follows now _
              | false =>
                  exact (S.nextPass_follows now).bind fun later => S.replan?_follows later _

private theorem pursue?_follows (strategy : StrategyState) (previous : Option RunResult) :
    Follows Occurrence.Tame (S.pursue? a strategy previous) (S.pursue a strategy previous)
      (S.traced.pursue a strategy previous)
      (a.substitution.Acyclic ∧ ∀ s ∈ strategy.planned, s.Acyclic) fun _ => True := by
  cases strategy with
  | passes state =>
      refine (S.follows_mirrored (x := fun _ T => T.resumePasses a state previous)
        (fun mirrors => mirrors.toAccompanies.resumePasses (mirrors.shufflesAlike _) state previous)
        (Exec.returns_any _)).bind fun _ => ?_
      exact follows_pure fun _ => trivial
  | choices state =>
      refine ((S.resumeChoices?_follows a state previous).weaken And.left).bind fun _ => ?_
      exact follows_pure fun _ => trivial
  | plans state =>
      refine ((S.resumePlans?_follows a state previous).weaken And.right).bind fun _ => ?_
      exact follows_pure fun _ => trivial

end Modules

private theorem resumeModule?_follows (f : ModuleFrame) (previous : Option RunResult) :
    Follows Occurrence.Tame (S.resumeModule? f previous) (S.resumeModule f previous)
      (S.traced.resumeModule f previous) (∀ s ∈ (Frame.module f).substitutions, s.Acyclic)
      fun _ => True := by
  have split (holds : ∀ s ∈ (Frame.module f).substitutions, s.Acyclic) :
      f.activation.substitution.Acyclic ∧ ∀ s ∈ f.strategy.planned, s.Acyclic :=
    List.forall_mem_cons.mp holds
  refine Follows.weaken ?_ split
  unfold resumeModule? resumeModule
  cases f.activation.prepared with
  | true => exact S.pursue?_follows f.activation f.strategy previous
  | false =>
      refine ((S.prepare?_follows f.activation).weaken And.left).bind fun left => ?_
      obtain ⟨a, failure⟩ := left
      cases failure with
      | some failure => exact follows_pure fun _ => trivial
      | none =>
          refine (S.pursue?_follows a f.strategy previous).weaken fun holds => ?_
          exact ⟨holds.2 ▸ holds.1.1, holds.1.2⟩

/-! ### Frames, stacks and agents -/

private theorem resumeWith?_follows (f : Frame) (previous : Option RunResult) :
    Follows Occurrence.Tame (S.resumeWith? f previous) (S.resumeWith f previous)
      (S.traced.resumeWith f previous) (∀ s ∈ f.substitutions, s.Acyclic) fun _ => True := by
  cases f with
  | module g =>
      exact (S.resumeModule?_follows g previous).bind fun _ => follows_pure fun _ => trivial
  | rule g =>
      refine ((S.resumeRule?_follows g previous).weaken fun holds => ?_).bind fun _ =>
        follows_pure fun _ => trivial
      exact holds _ List.mem_cons_self
  | action x =>
      refine ((S.resumeAction?_follows x previous).weaken fun holds => ?_).bind fun _ =>
        follows_pure fun _ => trivial
      exact holds _ List.mem_cons_self
  | combo c => exact follows_pure fun _ => trivial
  | hole => exact follows_pure fun _ => trivial

private theorem resume?_follows (f : Frame) (previous : Option Completed) :
    Follows Occurrence.Tame (S.resume? f previous) (S.resume f previous)
      (S.traced.resume f previous) (∀ s ∈ f.substitutions, s.Acyclic) fun _ => True := by
  unfold resume? resume
  cases previous with
  | none => exact S.resumeWith?_follows f none
  | some completed =>
      dsimp only
      cases completed.result with
      | error failure => exact follows_pure fun _ => trivial
      | ok result => exact S.resumeWith?_follows f (some result)

private theorem pop?_follows (stack : CallStack) :
    Follows Occurrence.Tame (S.pop? stack) (S.pop stack) (S.traced.pop stack)
      (∀ f ∈ stack.frames.head?, ∀ s ∈ f.substitutions, s.Acyclic) fun _ => True := by
  unfold pop? pop
  cases stack.frames with
  | nil => exact follows_pure fun _ => trivial
  | cons top rest =>
      refine ((S.resume?_follows top stack.previous).weaken fun holds => ?_).bind fun _ =>
        follows_pure fun _ => trivial
      exact holds top rfl

theorem pop?_eq (stack : CallStack) (situation : Situation σ ω) :
    S.pop? stack situation = none ∨ S.pop? stack situation = some (S.pop stack situation) :=
  (S.pop?_follows stack situation situation.unseen situation.alike_unseen).2.1

theorem pop?_returns {stack : CallStack} {situation : Situation σ ω}
    (acyclic : ∀ f ∈ stack.frames.head?, ∀ s ∈ f.substitutions, s.Acyclic)
    (tame : ∀ o ∈ S.occurrences stack situation, o.Tame) :
    S.pop? stack situation = some (S.pop stack situation) := by
  obtain ⟨_, _, seen, noted, good⟩ :=
    S.pop?_follows stack situation situation.unseen situation.alike_unseen
  have all : S.occurrences stack situation = seen := noted
  rw [all] at tame
  exact (good acyclic tame).1

end Setting

end CognitiveAgent
