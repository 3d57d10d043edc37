import CognitiveAgent.Proofs.Exec
import CognitiveAgent.Run.Agent

/-!
Runs side by side. An interpreter touches the situation by a few elementary steps only. Whatever
relation between two situations these steps keep, every resumption and every pop keeps, and it
returns the same on both sides.
-/

set_option autoImplicit false

namespace CognitiveAgent

variable {σ ω τ υ α β : Type}

namespace Exec

/-- From related situations, both computations return the same and end in related situations. -/
def Agree (related : Situation σ ω → Situation τ υ → Prop) (left : Exec σ ω α)
    (right : Exec τ υ α) : Prop :=
  ∀ s t, related s t → (left s).1 = (right t).1 ∧ related (left s).2 (right t).2

variable {related : Situation σ ω → Situation τ υ → Prop}

private theorem agree_pure (value : α) :
    Agree related (pure value : Exec σ ω α) (pure value : Exec τ υ α) := by
  intro s t here
  exact ⟨rfl, here⟩

theorem Agree.bind {left : Exec σ ω α} {right : Exec τ υ α} {onLeft : α → Exec σ ω β}
    {onRight : α → Exec τ υ β} (first : Agree related left right)
    (rest : ∀ value, Agree related (onLeft value) (onRight value)) :
    Agree related (left >>= onLeft) (right >>= onRight) := by
  intro s t here
  obtain ⟨same, next⟩ := first s t here
  rw [bind_apply, bind_apply, same]
  exact rest _ _ _ next

/-- What goes on after the first computation may rely on what that one returns. -/
theorem Agree.bind_returns {left : Exec σ ω α} {right : Exec τ υ α} {onLeft : α → Exec σ ω β}
    {onRight : α → Exec τ υ β} {middle : α → Prop} (first : Agree related left right)
    (returned : left.Returns middle)
    (rest : ∀ value, middle value → Agree related (onLeft value) (onRight value)) :
    Agree related (left >>= onLeft) (right >>= onRight) := by
  intro s t here
  obtain ⟨same, next⟩ := first s t here
  rw [bind_apply, bind_apply, ← same]
  exact rest _ (returned s) _ _ next

def ShufflesAlike (related : Situation σ ω → Situation τ υ → Prop) (order : RuleOrder) : Prop :=
  order.shufflesRules = true ∨ order.shufflesInstantiations = true →
    ∀ {α : Type} (items : List α),
      Agree related (Situation.shuffle items) (Situation.shuffle items)

theorem ShufflesAlike.openPass {a : Activation} (alike : ShufflesAlike related a.order)
    (state : PassState) :
    Agree related (Setting.openPass a state) (Setting.openPass a state) := by
  unfold Setting.openPass Setting.passOrder
  split
  · exact agree_pure _
  · split
    next shuffles => exact (alike (.inl shuffles) _).bind fun _ => agree_pure _
    next => exact (agree_pure _).bind fun _ => agree_pure _

theorem ShufflesAlike.arrange {order : RuleOrder} (alike : ShufflesAlike related order)
    (options : List Instantiation) :
    Agree related (Setting.arrange order options) (Setting.arrange order options) := by
  unfold Setting.arrange
  split
  next several => exact alike (.inr (Bool.and_eq_true_iff.mp several).1) options
  next => exact agree_pure _

end Exec

/-- The same program runs in both settings, and every exchange and every report agrees. -/
structure Setting.Converses (S : Setting σ ω) (T : Setting τ υ)
    (related : Situation σ ω → Situation τ υ → Prop) : Prop where
  program : S.program = T.program
  defaultOrder : S.defaultOrder = T.defaultOrder
  ask : ∀ request, Exec.Agree related (S.ask request) (T.ask request)
  tell : ∀ event, Exec.Agree related (S.note (.event event)) (T.note (.event event))
  log : ∀ term, Exec.Agree related (S.log term) (T.log term)

structure Setting.Reflects (S : Setting σ ω) (T : Setting τ υ)
    (related : Situation σ ω → Situation τ υ → Prop) : Prop extends S.Converses T related where
  shuffle : ∀ {α : Type} (items : List α),
    Exec.Agree related (Situation.shuffle items) (Situation.shuffle items)

/-- The settings converse alike, and modules are entered and left alike. Shuffles may differ. -/
structure Setting.Accompanies (S : Setting σ ω) (T : Setting τ υ)
    (related : Situation σ ω → Situation τ υ → Prop) : Prop extends S.Converses T related where
  enter : ∀ name, Exec.Agree related (Situation.enter name) (Situation.enter name)
  leave : ∀ name, Exec.Agree related (Situation.leave name) (Situation.leave name)

structure Setting.Mirrors (S : Setting σ ω) (T : Setting τ υ)
    (related : Situation σ ω → Situation τ υ → Prop) : Prop
    extends S.Reflects T related, S.Accompanies T related

namespace Setting.Converses

variable {S : Setting σ ω} {T : Setting τ υ} {related : Situation σ ω → Situation τ υ → Prop}
variable (converses : S.Converses T related)

include converses

theorem emit (channel : Channel) (subject : String) (source : Option Location) (template : String)
    (arguments : List String) :
    Exec.Agree related (S.emit channel subject source template arguments)
      (T.emit channel subject source template arguments) :=
  converses.tell _

theorem eventPass (a : Activation) : S.eventPass a = T.eventPass a := by
  unfold Setting.eventPass
  rw [converses.program]

theorem callee (target : CallTarget) : S.callee target = T.callee target := by
  unfold Setting.callee
  rw [converses.program]

/-! ### Modules -/

theorem insertAll (beliefs : List Term) :
    Exec.Agree related (S.insertAll beliefs) (T.insertAll beliefs) := by
  induction beliefs with
  | nil => exact Exec.agree_pure _
  | cons belief rest ih =>
      refine (converses.ask (.insert belief)).bind fun answer => ?_
      cases answer with
      | error fault => exact Exec.agree_pure _
      | ok update => exact ih

theorem adoptAll (goals : List Term) :
    Exec.Agree related (S.adoptAll goals) (T.adoptAll goals) := by
  induction goals with
  | nil => exact Exec.agree_pure _
  | cons goal rest ih =>
      refine (converses.ask (.adopt goal)).bind fun answer => ?_
      cases answer with
      | error fault => exact Exec.agree_pure _
      | ok update => exact ih

theorem enterFocus (m : Module) (goal : Option Term) :
    Exec.Agree related (S.enterFocus m goal) (T.enterFocus m goal) := by
  unfold Setting.enterFocus
  split
  · exact Exec.agree_pure _
  · exact converses.ask _

theorem exitFocus (m : Module) : Exec.Agree related (S.exitFocus m) (T.exitFocus m) := by
  unfold Setting.exitFocus
  split
  · exact Exec.agree_pure _
  · exact converses.ask _

theorem furnish (a : Activation) : Exec.Agree related (S.furnish a) (T.furnish a) := by
  refine (converses.enterFocus a.module a.focus).bind fun entered => ?_
  cases entered with
  | error fault => exact Exec.agree_pure _
  | ok _ =>
      refine (converses.insertAll _).bind fun inserted => ?_
      cases inserted with
      | error fault => exact Exec.agree_pure _
      | ok _ => exact converses.adoptAll _

theorem mustStop (a : Activation) : Exec.Agree related (S.mustStop a) (T.mustStop a) := by
  unfold Setting.mustStop
  split
  · exact converses.ask .stopSignal
  · exact Exec.agree_pure _

theorem exitHolds (a : Activation) : Exec.Agree related (S.exitHolds a) (T.exitHolds a) := by
  unfold Setting.exitHolds
  cases a.module.exit with
  | noGoals => exact (converses.ask .hasGoals).bind fun goals => Exec.agree_pure _
  | noAction | always | never => exact Exec.agree_pure _

theorem nextPass (a : Activation) : Exec.Agree related (S.nextPass a) (T.nextPass a) := by
  unfold Setting.nextPass
  split
  · exact (converses.emit _ _ _ _ _).bind fun _ => Exec.agree_pure _
  · exact Exec.agree_pure _

theorem instantiate (rule : Rule) (incoming : Substitution) :
    Exec.Agree related (S.instantiate rule incoming) (T.instantiate rule incoming) := by
  refine (converses.emit _ _ _ _ _).bind fun _ => ?_
  refine (converses.ask (.evaluate rule.condition incoming)).bind fun answer => ?_
  cases answer <;> exact Exec.agree_pure _

theorem candidatesOf (incoming : Substitution) (rules : List (Rule × Nat)) :
    Exec.Agree related (S.candidatesOf incoming rules) (T.candidatesOf incoming rules) := by
  induction rules with
  | nil => exact Exec.agree_pure _
  | cons numbered rest ih =>
      obtain ⟨rule, index⟩ := numbered
      refine (converses.instantiate rule incoming).bind fun options => ?_
      cases options with
      | error failure => exact Exec.agree_pure _
      | ok options =>
          refine ih.bind fun others => ?_
          cases others <;> exact Exec.agree_pure _

theorem reportReward (a : Activation) :
    Exec.Agree related (S.reportReward a) (T.reportReward a) := by
  have rewards : Exec.Agree related S.rewardNow T.rewardNow := by
    refine (converses.ask .reward).bind fun reward => ?_
    cases reward with
    | some reward => exact Exec.agree_pure _
    | none =>
        refine (converses.ask .hasGoals).bind fun goals => ?_
        cases goals <;> exact Exec.agree_pure _
  refine rewards.bind fun reward => ?_
  exact (converses.ask _).bind fun _ => converses.emit _ _ _ _ _

theorem decide (a : Activation) (candidates : List Candidate) :
    Exec.Agree related (S.decide a candidates) (T.decide a candidates) := by
  refine (converses.ask (.choose a.module.name candidates)).bind fun chosen => ?_
  cases candidates[chosen]? with
  | none => exact Exec.agree_pure _
  | some choice => exact (converses.emit _ _ _ _ _).bind fun _ => Exec.agree_pure _

theorem runStep (a : Activation) (step : PlanStep) :
    Exec.Agree related (S.runStep a step) (T.runStep a step) :=
  (converses.emit _ _ _ _ _).bind fun _ => Exec.agree_pure _

theorem replan (a : Activation) (state : PlanState) :
    Exec.Agree related (S.replan a state) (T.replan a state) := by
  refine (converses.ask (.plan a.module a.substitution)).bind fun answer => ?_
  cases answer with
  | error fault => exact Exec.agree_pure _
  | ok plan =>
      refine (converses.emit _ _ _ _ _).bind fun _ => ?_
      dsimp only
      cases ({ state with plan } : PlanState).take? with
      | none => exact Exec.agree_pure _
      | some taken => exact (converses.runStep a taken.1).bind fun _ => Exec.agree_pure _

/-! ### Rules and actions -/

theorem fire (f : RuleFrame) (options : List Instantiation) :
    Exec.Agree related (S.fire f options) (T.fire f options) := by
  cases options with
  | nil => exact Exec.agree_pure _
  | cons option rest => exact (converses.emit _ _ _ _ _).bind fun _ => Exec.agree_pure _

theorem resumeRule {f : RuleFrame} (alike : Exec.ShufflesAlike related f.order)
    (previous : Option RunResult) :
    Exec.Agree related (S.resumeRule f previous) (T.resumeRule f previous) := by
  unfold Setting.resumeRule
  split
  · refine (converses.instantiate f.rule f.substitution).bind fun found => ?_
    cases found with
    | error failure => exact Exec.agree_pure _
    | ok options => exact (alike.arrange options).bind fun _ => converses.fire f _
  · exact converses.fire f _
  · dsimp only
    split
    · exact Exec.agree_pure _
    · exact converses.fire _ _

theorem applyEffects (effects : List Effect) :
    Exec.Agree related (S.applyEffects effects) (T.applyEffects effects) := by
  induction effects with
  | nil => exact Exec.agree_pure _
  | cons effect rest ih =>
      cases effect with
      | insert belief =>
          refine (converses.ask (.insert belief)).bind fun answer => ?_
          cases answer with
          | error fault => exact Exec.agree_pure _
          | ok update => exact ih
      | delete belief =>
          refine (converses.ask (.delete belief)).bind fun answer => ?_
          cases answer with
          | error fault => exact Exec.agree_pure _
          | ok update => exact ih

theorem carryOut (ground : UserAction) :
    Exec.Agree related (S.carryOut ground) (T.carryOut ground) := by
  unfold Setting.carryOut
  split
  · refine (converses.ask (.perform ground)).bind fun answer => ?_
    cases answer with
    | error fault => exact Exec.agree_pure _
    | ok _ =>
        refine (converses.applyEffects ground.post).bind fun effects => ?_
        cases effects with
        | error fault => exact Exec.agree_pure _
        | ok _ => exact (converses.emit _ _ _ _ _).bind fun _ => Exec.agree_pure _
  · exact Exec.agree_pure _

theorem userBindings (action : UserAction) (substitution : Substitution) :
    Exec.Agree related (S.userBindings action substitution)
      (T.userBindings action substitution) := by
  unfold Setting.userBindings
  split
  · exact Exec.agree_pure _
  · refine (converses.emit _ _ _ _ _).bind fun _ => ?_
    refine (converses.ask (.evaluate action.pre substitution)).bind fun answer => ?_
    cases answer <;> exact Exec.agree_pure _

theorem performUser (action : UserAction) (substitution : Substitution) :
    Exec.Agree related (S.performUser action substitution) (T.performUser action substitution) := by
  refine (converses.userBindings action substitution).bind fun found => ?_
  match found with
  | .error fault => exact Exec.agree_pure _
  | .ok none => exact Exec.agree_pure _
  | .ok (some bindings) => exact converses.carryOut _

theorem mentalResult (action : MentalAction) :
    Exec.Agree related (S.mentalResult action) (T.mentalResult action) := by
  cases action with
  | insert belief =>
      refine (converses.ask (.insert belief)).bind fun answer => ?_
      cases answer <;> exact Exec.agree_pure _
  | delete belief =>
      refine (converses.ask (.delete belief)).bind fun answer => ?_
      cases answer <;> exact Exec.agree_pure _
  | adopt goal =>
      refine (converses.ask (.adopt goal)).bind fun answer => ?_
      cases answer <;> exact Exec.agree_pure _
  | drop goal =>
      refine (converses.ask (.drop goal)).bind fun answer => ?_
      cases answer <;> exact Exec.agree_pure _
  | exit => exact Exec.agree_pure _
  | log term => exact (converses.log _).bind fun _ => Exec.agree_pure _

theorem performMental (action : MentalAction) :
    Exec.Agree related (S.performMental action) (T.performMental action) := by
  unfold Setting.performMental
  split
  · refine (converses.mentalResult action).bind fun performed => ?_
    cases performed with
    | error fault => exact Exec.agree_pure _
    | ok result => exact (converses.emit _ _ _ _ _).bind fun _ => Exec.agree_pure _
  · exact Exec.agree_pure _

theorem expandCall (f : ActionFrame) (target : CallTarget) (params : List Term)
    (source : Option Location) :
    Exec.Agree related (S.expandCall f target params source)
      (T.expandCall f target params source) := by
  unfold Setting.expandCall
  rw [converses.callee]
  cases T.callee target with
  | error cause => exact Exec.agree_pure _
  | ok m =>
      dsimp only
      cases m.bindCall params f.substitution with
      | error cause => exact Exec.agree_pure _
      | ok bindings => exact (converses.emit _ _ _ _ _).bind fun _ => Exec.agree_pure _

theorem resumeAction (f : ActionFrame) (previous : Option RunResult) :
    Exec.Agree related (S.resumeAction f previous) (T.resumeAction f previous) := by
  unfold Setting.resumeAction
  cases f.called with
  | some anonymous => exact Exec.agree_pure _
  | none =>
      cases f.action with
      | user action => exact (converses.performUser _ _).bind fun _ => Exec.agree_pure _
      | mental action => exact (converses.performMental _).bind fun _ => Exec.agree_pure _
      | call target params source => exact converses.expandCall f target params source

end Setting.Converses

theorem Setting.Reflects.shufflesAlike {S : Setting σ ω} {T : Setting τ υ}
    {related : Situation σ ω → Situation τ υ → Prop} (reflects : S.Reflects T related)
    (order : RuleOrder) : Exec.ShufflesAlike related order :=
  fun _ _ items => reflects.shuffle items

private theorem PassState.absorb_order (state : PassState) (a : Activation)
    (previous : Option RunResult) :
    (state.absorb a previous).1.order = a.order := by
  unfold absorb
  cases previous with
  | none => rfl
  | some result => cases state.awaiting <;> rfl

namespace Setting

variable (S : Setting σ ω)

private theorem endPass_order (a : Activation) (state : PassState) :
    (S.endPass a state).Returns fun left => left.2.2 = none → left.1.order = a.order := by
  unfold endPass
  refine (Exec.returns_any _).bind fun holds _ => ?_
  cases holds with
  | true =>
      refine (Exec.returns_any _).bind fun left _ => Exec.returns_pure ?_
      intro impossible
      cases impossible
  | false =>
      have next : (S.nextPass a).Returns fun later => later.order = a.order := by
        unfold nextPass
        split
        · exact (Exec.returns_any _).bind fun _ _ => Exec.returns_pure rfl
        · exact Exec.returns_pure rfl
      refine next.bind fun later same => ?_
      cases S.eventPass later with
      | some frames => exact Exec.returns_pure fun _ => same
      | none => exact Exec.returns_pure fun _ => same

private theorem prepare_order (a : Activation) :
    (S.prepare a).Returns fun left =>
      left.1.order = (a.module.order <|> a.inherited).getD S.defaultOrder := by
  unfold prepare
  refine (Exec.returns_any _).bind fun answer _ => ?_
  cases answer with
  | error fault => exact Exec.returns_pure rfl
  | ok _ =>
      refine (Exec.returns_any _).bind fun _ _ => ?_
      exact (Exec.returns_any _).bind fun _ _ => Exec.returns_pure rfl

def governing (g : ModuleFrame) : RuleOrder :=
  if g.activation.prepared then g.activation.order
  else (g.activation.module.order <|> g.activation.inherited).getD S.defaultOrder

def GoesBy : Frame → RuleOrder → Prop
  | .module g, order => order = S.governing g
  | .rule g, order => order = g.order
  | .combo _, _ | .action _, _ | .hole, _ => False

end Setting

namespace Setting.Accompanies

variable {S : Setting σ ω} {T : Setting τ υ} {related : Situation σ ω → Situation τ υ → Prop}
variable (accompanies : S.Accompanies T related)

include accompanies

theorem prepare (a : Activation) : Exec.Agree related (S.prepare a) (T.prepare a) := by
  unfold Setting.prepare
  rw [accompanies.defaultOrder]
  refine (accompanies.furnish _).bind fun furnished => ?_
  cases furnished with
  | error fault => exact Exec.agree_pure _
  | ok _ =>
      refine (accompanies.enter _).bind fun _ => ?_
      refine (accompanies.emit _ _ _ _ _).bind fun _ => ?_
      exact Exec.agree_pure _

theorem finish (a : Activation) : Exec.Agree related (S.finish a) (T.finish a) := by
  refine (accompanies.ask .stopSignal).bind fun stopped => ?_
  refine (accompanies.exitFocus _).bind fun answer => ?_
  cases answer with
  | error fault => exact Exec.agree_pure _
  | ok _ =>
      refine (accompanies.leave _).bind fun _ => ?_
      refine (accompanies.emit _ _ _ _ _).bind fun _ => ?_
      exact Exec.agree_pure _

/-- Leaving a module, with the strategy in a given state. -/
theorem leaving {ρ : Type} (a : Activation) (state : ρ) :
    Exec.Agree related
      (do let (left, outcome) ← S.finish a
          return (left, state, outcome) : Exec σ ω (Activation × ρ × Outcome))
      (do let (left, outcome) ← T.finish a
          return (left, state, outcome) : Exec τ υ (Activation × ρ × Outcome)) :=
  (accompanies.finish a).bind fun _ => Exec.agree_pure _

theorem endPass (a : Activation) (state : PassState) :
    Exec.Agree related (S.endPass a state) (T.endPass a state) := by
  refine (accompanies.exitHolds a).bind fun holds => ?_
  cases holds with
  | true => exact (accompanies.finish a).bind fun _ => Exec.agree_pure _
  | false =>
      refine (accompanies.nextPass a).bind fun later => ?_
      rw [accompanies.eventPass]
      cases T.eventPass later <;> exact Exec.agree_pure _

theorem tryNext {a : Activation} (alike : Exec.ShufflesAlike related a.order)
    (state : PassState) : Exec.Agree related (S.tryNext a state) (T.tryNext a state) := by
  refine (alike.openPass state).bind fun opened => ?_
  cases opened.queue with
  | nil => exact (accompanies.endPass a opened).bind fun _ => Exec.agree_pure _
  | cons next rest => exact Exec.agree_pure _

theorem resumePasses {a : Activation} (alike : Exec.ShufflesAlike related a.order)
    (state : PassState) (previous : Option RunResult) :
    Exec.Agree related (S.resumePasses a state previous) (T.resumePasses a state previous) := by
  unfold Setting.resumePasses
  rw [← PassState.absorb_order state a previous] at alike
  generalize state.absorb a previous = heard at alike ⊢
  obtain ⟨now, closes⟩ := heard
  refine (accompanies.mustStop now).bind fun stop => ?_
  cases stop with
  | true => exact accompanies.leaving now _
  | false =>
      cases closes with
      | false => exact accompanies.tryNext alike _
      | true =>
          refine (accompanies.endPass now _).bind_returns (S.endPass_order now _) fun left same => ?_
          obtain ⟨later, state, outcome⟩ := left
          cases outcome with
          | some outcome => exact Exec.agree_pure _
          | none =>
              refine accompanies.tryNext (a := later) ?_ state
              rw [show later.order = now.order from same rfl]
              exact alike

theorem pause (a : Activation) : Exec.Agree related (S.pause a) (T.pause a) := by
  refine (accompanies.exitHolds a).bind fun holds => ?_
  cases holds with
  | true => exact accompanies.leaving a _
  | false =>
      refine (accompanies.nextPass a).bind fun later => ?_
      rw [accompanies.eventPass]
      cases T.eventPass later <;> exact Exec.agree_pure _

theorem offer (a : Activation) : Exec.Agree related (S.offer a) (T.offer a) := by
  refine (accompanies.candidatesOf a.substitution a.module.rules.zipIdx).bind fun found => ?_
  match found with
  | .error failure => exact Exec.agree_pure _
  | .ok [] => exact accompanies.pause a
  | .ok (candidate :: rest) => exact accompanies.decide a (candidate :: rest)

theorem settle (a : Activation) : Exec.Agree related (S.settle a) (T.settle a) := by
  refine (accompanies.reportReward a).bind fun _ => ?_
  refine (accompanies.mustStop a).bind fun stop => ?_
  cases stop with
  | true => exact accompanies.leaving a _
  | false =>
      refine (accompanies.exitHolds a).bind fun holds => ?_
      cases holds with
      | true => exact accompanies.leaving a _
      | false => exact (accompanies.nextPass a).bind fun later => accompanies.offer later

theorem resumeChoices (a : Activation) (state : ChoiceState) (previous : Option RunResult) :
    Exec.Agree related (S.resumeChoices a state previous) (T.resumeChoices a state previous) := by
  unfold Setting.resumeChoices
  obtain ⟨now, stage⟩ := state.absorb a previous
  have goesOn : Exec.Agree related
      (do if ← S.mustStop now then
            let (left, outcome) ← S.finish now
            return (left, {}, outcome)
          else S.offer now : Exec σ ω (Activation × ChoiceState × Outcome))
      (do if ← T.mustStop now then
            let (left, outcome) ← T.finish now
            return (left, {}, outcome)
          else T.offer now : Exec τ υ (Activation × ChoiceState × Outcome)) := by
    refine (accompanies.mustStop now).bind fun stop => ?_
    cases stop with
    | true => exact accompanies.leaving now _
    | false => exact accompanies.offer now
  cases stage with
  | idle => exact goesOn
  | passed chose =>
      cases chose with
      | true => exact accompanies.settle now
      | false => exact goesOn
  | acted =>
      refine (accompanies.mustStop now).bind fun stop => ?_
      cases stop with
      | true => exact (accompanies.reportReward now).bind fun _ => accompanies.leaving now _
      | false =>
          dsimp only
          rw [accompanies.eventPass]
          cases T.eventPass now with
          | some frames => exact Exec.agree_pure _
          | none => exact accompanies.settle now

theorem resumePlans (a : Activation) (state : PlanState) (previous : Option RunResult) :
    Exec.Agree related (S.resumePlans a state previous) (T.resumePlans a state previous) := by
  unfold Setting.resumePlans
  obtain ⟨now, state⟩ := state.absorb a previous
  refine (accompanies.mustStop now).bind fun stop => ?_
  cases stop with
  | true => exact accompanies.leaving now _
  | false =>
      dsimp only
      cases state.take? with
      | some taken => exact (accompanies.runStep now taken.1).bind fun _ => Exec.agree_pure _
      | none =>
          cases planned : state.plannedBefore with
          | false => exact accompanies.replan now _
          | true =>
              refine (accompanies.exitHolds now).bind fun holds => ?_
              cases holds with
              | true => exact accompanies.leaving now _
              | false =>
                exact (accompanies.nextPass now).bind fun later =>
                  accompanies.replan later _

theorem pursue {a : Activation} (alike : Exec.ShufflesAlike related a.order)
    (strategy : StrategyState) (previous : Option RunResult) :
    Exec.Agree related (S.pursue a strategy previous) (T.pursue a strategy previous) := by
  cases strategy with
  | passes state =>
      exact (accompanies.resumePasses alike state previous).bind fun _ => Exec.agree_pure _
  | choices state =>
      exact (accompanies.resumeChoices a state previous).bind fun _ => Exec.agree_pure _
  | plans state => exact (accompanies.resumePlans a state previous).bind fun _ => Exec.agree_pure _

theorem resumeModule {f : ModuleFrame}
    (alike : Exec.ShufflesAlike related (S.governing f)) (previous : Option RunResult) :
    Exec.Agree related (S.resumeModule f previous) (T.resumeModule f previous) := by
  unfold Setting.resumeModule
  unfold Setting.governing at alike
  split
  next prepared =>
    rw [if_pos prepared] at alike
    exact accompanies.pursue alike _ _
  next unprepared =>
    rw [if_neg unprepared] at alike
    refine (accompanies.prepare f.activation).bind_returns (S.prepare_order f.activation)
      fun left same => ?_
    obtain ⟨a, failure⟩ := left
    cases failure with
    | some failure => exact Exec.agree_pure _
    | none =>
        refine accompanies.pursue (a := a) ?_ f.strategy previous
        rw [show a.order = _ from same]
        exact alike

/-! ### Frames and stacks -/

/-- A frame is resumed alike if the shuffles agree that the order which it goes by calls for. -/
theorem resume {f : Frame} (alike : ∀ order, S.GoesBy f order → Exec.ShufflesAlike related order)
    (previous : Option Completed) :
    Exec.Agree related (S.resume f previous) (T.resume f previous) := by
  have withResult (result : Option RunResult) :
      Exec.Agree related (S.resumeWith f result) (T.resumeWith f result) := by
    cases f with
    | module frame =>
        exact (accompanies.resumeModule (alike _ rfl) result).bind fun _ => Exec.agree_pure _
    | rule frame =>
        exact (accompanies.resumeRule (alike _ rfl) result).bind fun _ => Exec.agree_pure _
    | combo frame => exact Exec.agree_pure _
    | action frame =>
        exact (accompanies.resumeAction frame result).bind fun _ => Exec.agree_pure _
    | hole => exact Exec.agree_pure _
  unfold Setting.resume
  cases previous with
  | none => exact withResult none
  | some completed =>
      dsimp only
      cases completed.result with
      | error failure => exact Exec.agree_pure _
      | ok result => exact withResult (some result)

theorem pop {stack : CallStack}
    (alike : ∀ f, stack.frames.head? = some f → ∀ order, S.GoesBy f order →
      Exec.ShufflesAlike related order) :
    Exec.Agree related (S.pop stack) (T.pop stack) := by
  unfold Setting.pop
  cases frames : stack.frames with
  | nil => exact Exec.agree_pure _
  | cons top rest =>
      rw [frames] at alike
      exact (accompanies.resume (alike top rfl) stack.previous).bind fun _ => Exec.agree_pure _

/-- An agent with an empty stack enters its next phase before the stack is popped. -/
theorem step {agent : Agent}
    (alike : ∀ f, (if agent.stack.isEmpty then (agent.enterPhase S.program).1
        else agent).stack.frames.head? = some f →
      ∀ order, S.GoesBy f order → Exec.ShufflesAlike related order) :
    Exec.Agree related (S.step agent) (T.step agent) := by
  have advance (agent : Agent) (alike : ∀ f, agent.stack.frames.head? = some f →
      ∀ order, S.GoesBy f order → Exec.ShufflesAlike related order) :
      Exec.Agree related (S.advance agent) (T.advance agent) := by
    refine (accompanies.pop alike).bind fun stack => ?_
    dsimp only
    split <;> exact Exec.agree_pure _
  unfold Setting.step
  rw [accompanies.program] at alike ⊢
  split
  next empty =>
    rw [if_pos empty] at alike
    generalize agent.enterPhase T.program = opening at alike ⊢
    obtain ⟨entered, opened⟩ := opening
    cases opened with
    | true => exact advance entered alike
    | false => exact Exec.agree_pure _
  next busy =>
    rw [if_neg busy] at alike
    exact advance agent alike

end Setting.Accompanies

namespace Setting.Mirrors

variable {S : Setting σ ω} {T : Setting τ υ} {related : Situation σ ω → Situation τ υ → Prop}
variable (mirrors : S.Mirrors T related)

include mirrors

theorem resume (f : Frame) (previous : Option Completed) :
    Exec.Agree related (S.resume f previous) (T.resume f previous) :=
  mirrors.toAccompanies.resume (fun order _ => mirrors.shufflesAlike order) previous

theorem pop (stack : CallStack) : Exec.Agree related (S.pop stack) (T.pop stack) :=
  mirrors.toAccompanies.pop fun _ _ order _ => mirrors.shufflesAlike order

theorem step (agent : Agent) : Exec.Agree related (S.step agent) (T.step agent) :=
  mirrors.toAccompanies.step fun _ _ order _ => mirrors.shufflesAlike order

end Setting.Mirrors

end CognitiveAgent
