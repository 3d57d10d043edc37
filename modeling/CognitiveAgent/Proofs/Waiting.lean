import CognitiveAgent.Proofs.Pops

/-!
What a frame waits for. A frame that is resumed either leaves the stack, or pushes one child, with
holes for the levels passed over, and waits for it, or is a module that found nothing to do and
waits for nothing. What makes up its identity stays as it was when it was pushed.
-/

set_option autoImplicit false

namespace CognitiveAgent

variable {σ ω : Type}

inductive ModuleFrame.Fresh : ModuleFrame → Prop where
  | start (m : Module) (substitution : Substitution) (inherited : Option RuleOrder)
      (focus : Option Term) : Fresh (.start m substitution inherited focus)
  | startMain (m : Module) : Fresh (.startMain m)

def ModuleFrame.origin (f : ModuleFrame) : ModuleFrame :=
  let a := f.activation
  let fresh := start a.module a.substitution a.inherited a.focus
  { fresh with activation := { fresh.activation with isMain := a.isMain } }

namespace Frame

/-- The frame before it was first resumed. -/
def origin : Frame → Frame
  | .module f => .module f.origin
  | .rule f => .rule { f with pending := none, result := .start }
  | .combo f => .combo { f with pending := none, lastWasCall := false, result := .start }
  | .action f => .action { f with called := none }
  | .hole => .hole

theorem kind_origin (f : Frame) : f.origin.kind = f.kind := by
  cases f <;> rfl

theorem kind_eq_of_origin {f g : Frame} (same : f.origin = g.origin) : f.kind = g.kind := by
  rw [← kind_origin f, same, kind_origin g]

end Frame

def StrategyState.waits : StrategyState → Bool
  | .passes state => state.awaiting != .nothing
  | .choices state => state.awaiting != .nothing
  | .plans state => state.awaitingStep

def StrategyState.waitsForCombo : StrategyState → Bool
  | .passes _ => false
  | .choices state => state.awaiting == .combo
  | .plans state => state.awaitingStep

def StrategyState.waitsForEvents : StrategyState → Bool
  | .passes state => state.awaiting == .eventPass
  | .choices state => state.awaiting == .eventPass true || state.awaiting == .eventPass false
  | .plans _ => false

/-- Whether a frame waits for a child that it has pushed. A hole has pushed nothing itself. -/
def Frame.waits : Frame → Bool
  | .module f => f.strategy.waits
  | .rule f => f.pending.isSome
  | .combo f => f.pending.isSome
  | .action f => f.called.isSome
  | .hole => false

theorem StrategyState.start_waits (strategy : Strategy) : (start strategy).waits = false := by
  cases strategy <;> rfl

theorem ModuleFrame.Fresh.waits {f : ModuleFrame} (fresh : f.Fresh) : f.strategy.waits = false := by
  cases fresh with
  | start m => exact StrategyState.start_waits m.strategy
  | startMain m => exact StrategyState.start_waits m.strategy

/-- The module has been entered, and nothing in it has asked to stop. -/
structure Activation.Active (a : Activation) : Prop where
  prepared : a.prepared = true
  running : a.result.isRunning = true

/-- `S.Awaits f holes child`: the frame waits for the child, which it has pushed on top of so
many holes. -/
inductive Setting.Awaits (S : Setting σ ω) : Frame → Nat → Frame → Prop where
  | module {f : ActionFrame} {target : CallTarget} {params : List Term} {source : Option Location}
      {m : Module} {bindings : Substitution}
      (isCall : f.action = .call target params source) (found : S.callee target = .ok m)
      (bound : m.bindCall params f.substitution = .ok bindings)
      (called : f.called = some m.anonymous) :
      S.Awaits (.action f) 0 (.module (.start m bindings (some f.order) f.focus))
  | action {f : ComboFrame} {action : Action} {rest : List Action}
      (pending : f.pending = some rest) (last : f.lastWasCall = action.isCall) :
      S.Awaits (.combo f) 0
        (.action { action, substitution := f.substitution, focus := f.focus, order := f.order })
  | combo {f : RuleFrame} {option : Instantiation} {rest : List Instantiation}
      (pending : f.pending = some rest) :
      S.Awaits (.rule f) 0
        (.combo { combo := f.rule.combo, substitution := option.substitution,
                  focus := option.focus, order := f.order })
  | rule {a : Activation} {state : PassState} {rule : Rule} {index : Nat}
      (active : a.Active) (awaiting : state.awaiting = .rule) :
      S.Awaits (.module ⟨a, .passes state⟩) 0 (a.ruleFrame rule index)
  | ownCombo {a : Activation} {strategy : StrategyState} {combo : List Action}
      {substitution : Substitution} {focus : Option Term}
      (active : a.Active) (awaiting : strategy.waitsForCombo = true) :
      S.Awaits (.module ⟨a, strategy⟩) 1 (.combo { combo, substitution, focus, order := a.order })
  | events {a : Activation} {strategy : StrategyState} {m : Module}
      (active : a.Active) (awaiting : strategy.waitsForEvents = true) (main : a.isMain = true)
      (event : S.program.event = some m) :
      S.Awaits (.module ⟨a, strategy⟩) 3 (.module (.start m .empty (some a.order) none))

namespace Setting.Awaits

variable {S : Setting σ ω} {f child : Frame} {holes : Nat}

theorem waits (awaits : S.Awaits f holes child) : f.waits = true := by
  cases awaits with
  | module _ _ _ called => simp only [Frame.waits, called, Option.isSome_some]
  | action pending _ => simp only [Frame.waits, pending, Option.isSome_some]
  | combo pending => simp only [Frame.waits, pending, Option.isSome_some]
  | rule _ awaiting => simp only [Frame.waits, StrategyState.waits, awaiting]; rfl
  | @ownCombo _ strategy _ _ _ _ awaiting =>
      cases strategy with
      | passes state => cases awaiting
      | choices state =>
          have isCombo : state.awaiting = .combo := eq_of_beq awaiting
          simp only [Frame.waits, StrategyState.waits, isCombo]
          rfl
      | plans state => exact awaiting
  | @events _ strategy _ _ awaiting =>
      cases strategy with
      | passes state =>
          have isEvents : state.awaiting = .eventPass := eq_of_beq awaiting
          simp only [Frame.waits, StrategyState.waits, isEvents]
          rfl
      | choices state =>
          cases stage : state.awaiting with
          | nothing => rw [StrategyState.waitsForEvents, stage] at awaiting; cases awaiting
          | combo => simp only [Frame.waits, StrategyState.waits, stage]; rfl
          | eventPass chose => simp only [Frame.waits, StrategyState.waits, stage]; rfl
      | plans state => cases awaiting

theorem child_waits (awaits : S.Awaits f holes child) : child.waits = false := by
  cases awaits with
  | module => exact (ModuleFrame.Fresh.start _ _ _ _).waits
  | events => exact (ModuleFrame.Fresh.start _ _ _ _).waits
  | action | combo | rule | ownCombo => rfl

theorem child_origin (awaits : S.Awaits f holes child) : child.origin = child := by
  cases awaits <;> rfl

theorem child_ne_hole (awaits : S.Awaits f holes child) : child ≠ .hole := by
  cases awaits <;> intro impossible <;> cases impossible

theorem ne_hole (awaits : S.Awaits f holes child) : f ≠ .hole := by
  cases awaits <;> intro impossible <;> cases impossible

end Setting.Awaits

/-- `S.Proper f outcome`: a resumption can leave the frame like this with this outcome. -/
inductive Setting.Proper (S : Setting σ ω) : Frame → Outcome → Prop where
  | done (f : Frame) (result : RunResult) : S.Proper f (.done result)
  | failed (f : Frame) (failure : Failure) : S.Proper f (.failed failure)
  | idle {f : ModuleFrame} (active : f.activation.Active) (nothing : f.strategy.waits = false) :
      S.Proper (.module f) (.yield [])
  | push {f child : Frame} {holes : Nat} (awaits : S.Awaits f holes child) :
      S.Proper f (.yield (List.replicate holes .hole ++ [child]))

theorem Setting.Proper.of_result {S : Setting σ ω} {f : Frame} {outcome : Outcome}
    {result : Except Failure RunResult} (final : outcome.result? = some result) :
    S.Proper f outcome := by
  cases outcome with
  | yield children => cases final
  | done result => exact .done f result
  | failed failure => exact .failed f failure

/-- What a strategy can change of an activation is its result and the mark of its pass. -/
def Activation.Keeps (a later : Activation) : Prop :=
  ∃ result passPerformed, later = { a with result, passPerformed }

namespace Activation.Keeps

theorem refl (a : Activation) : a.Keeps a := ⟨a.result, a.passPerformed, rfl⟩

theorem substitution {a later : Activation} (kept : a.Keeps later) :
    later.substitution = a.substitution := by
  obtain ⟨_, _, rfl⟩ := kept
  rfl

theorem trans {a b c : Activation} (first : a.Keeps b) (second : b.Keeps c) : a.Keeps c := by
  obtain ⟨_, _, rfl⟩ := first
  obtain ⟨result, passPerformed, rfl⟩ := second
  exact ⟨result, passPerformed, rfl⟩

private theorem ite {a b c : Activation} {condition : Prop} [Decidable condition] (yes : a.Keeps b)
    (no : a.Keeps c) : a.Keeps (if condition then b else c) := by
  split
  · exact yes
  · exact no

theorem absorb (a : Activation) (child : RunResult) : a.Keeps (a.absorb child) := ⟨_, _, rfl⟩

theorem absorbEventPass (a : Activation) (child : RunResult) : a.Keeps (a.absorbEventPass child) :=
  ⟨_, _, rfl⟩

theorem module {a b : Activation} (keeps : a.Keeps b) : b.module = a.module := by
  obtain ⟨_, _, rfl⟩ := keeps
  rfl

theorem isMain {a b : Activation} (keeps : a.Keeps b) : b.isMain = a.isMain := by
  obtain ⟨_, _, rfl⟩ := keeps
  rfl

theorem prepared {a b : Activation} (keeps : a.Keeps b) (entered : a.prepared = true) :
    b.prepared = true := by
  obtain ⟨_, _, rfl⟩ := keeps
  exact entered

theorem origin {a b : Activation} (keeps : a.Keeps b) (before after : StrategyState) :
    (ModuleFrame.mk b after).origin = (ModuleFrame.mk a before).origin := by
  obtain ⟨_, _, rfl⟩ := keeps
  rfl

end Activation.Keeps

namespace Setting

variable (S : Setting σ ω)

def Serves (a later : Activation) (strategy : StrategyState) (outcome : Outcome) : Prop :=
  a.Keeps later ∧ S.Proper (.module ⟨later, strategy⟩) outcome

theorem finish_returns (a : Activation) :
    (S.finish a).Returns fun left => a.Keeps left.1 ∧ ∃ result, left.2.result? = some result := by
  unfold finish
  refine (Exec.returns_any _).bind fun stopped _ => ?_
  refine (Exec.returns_any _).bind fun answer _ => ?_
  cases answer with
  | error fault => exact Exec.returns_pure ⟨.ite ⟨_, _, rfl⟩ (.refl a), _, rfl⟩
  | ok _ =>
      refine (Exec.returns_any _).bind fun _ _ => ?_
      refine (Exec.returns_any _).bind fun _ _ => ?_
      have stop : a.Keeps (if stopped = true then
          { a with result := a.result.merge (.stopped .hardStop) } else a) :=
        .ite ⟨_, _, rfl⟩ (.refl a)
      exact Exec.returns_pure ⟨stop.trans (.ite (.refl _) ⟨_, _, rfl⟩), _, rfl⟩

private theorem nextPass_returns {a now : Activation} (kept : a.Keeps now) (active : now.Active) :
    (S.nextPass now).Returns fun later => a.Keeps later ∧ later.Active := by
  have keeps : a.Keeps { now with passPerformed := false } := kept.trans ⟨_, _, rfl⟩
  unfold nextPass
  split
  · refine (Exec.returns_any _).bind fun _ _ => ?_
    exact Exec.returns_pure ⟨keeps, active.prepared, active.running⟩
  · exact Exec.returns_pure ⟨keeps, active.prepared, active.running⟩

/-- A prepared module that need not stop is active. -/
theorem mustStop_returns {a : Activation} (prepared : a.prepared = true) :
    (S.mustStop a).Returns fun stop => stop = false → a.Active := by
  unfold mustStop
  split
  · rename_i running
    exact fun _ _ => ⟨prepared, running⟩
  · refine Exec.returns_pure ?_
    intro impossible
    cases impossible

/-- Leaving a module serves every strategy. -/
theorem finish_serves {a now : Activation} (kept : a.Keeps now) :
    (S.finish now).Returns fun left => ∀ strategy, S.Serves a left.1 strategy left.2 :=
  (S.finish_returns now).mono fun _ ⟨keeps, _, final⟩ _ => ⟨kept.trans keeps, .of_result final⟩

/-- Leaving a module, whatever state its strategy is in. -/
theorem leave_serves {τ : Type} {a now : Activation} (kept : a.Keeps now)
    (strategy : τ → StrategyState) (state : τ) :
    (do
      let (left, outcome) ← S.finish now
      return (left, state, outcome) : Exec σ ω (Activation × τ × Outcome)).Returns
        fun left => S.Serves a left.1 (strategy left.2.1) left.2.2 := by
  refine (S.finish_serves kept).bind fun left served => ?_
  exact Exec.returns_pure (served _)

/-- A module that must stop is left, and any other one goes on while it is active. -/
theorem stop_serves {τ : Type} {a now : Activation} (kept : a.Keeps now)
    (prepared : a.prepared = true) (strategy : τ → StrategyState) (state : τ)
    {proceed : Exec σ ω (Activation × τ × Outcome)}
    (proceeds : now.Active → proceed.Returns fun left =>
      S.Serves a left.1 (strategy left.2.1) left.2.2) :
    (do
      if ← S.mustStop now then
        let (left, outcome) ← S.finish now
        return (left, state, outcome)
      else proceed).Returns fun left => S.Serves a left.1 (strategy left.2.1) left.2.2 := by
  refine (S.mustStop_returns (kept.prepared prepared)).bind fun stop active => ?_
  cases stop with
  | true => exact S.leave_serves kept strategy state
  | false => exact proceeds (active rfl)

private theorem eventPass_proper {a : Activation} {strategy : StrategyState} {frames : List Frame}
    (pass : S.eventPass a = some frames) (active : a.Active)
    (awaiting : strategy.waitsForEvents = true) :
    S.Proper (.module ⟨a, strategy⟩) (.yield frames) := by
  unfold eventPass at pass
  split at pass
  · rename_i main
    obtain ⟨event, found, same⟩ := Option.map_eq_some_iff.mp pass
    subst frames
    exact .push (.events active awaiting main found)
  · cases pass

/-! ### Modules that try their rules in order -/

private theorem endPass_returns {a now : Activation} (kept : a.Keeps now) (active : now.Active)
    (state : PassState) :
    (S.endPass now state).Returns fun left =>
      match left.2.2 with
      | some outcome => S.Serves a left.1 (.passes left.2.1) outcome
      | none => a.Keeps left.1 ∧ left.1.Active ∧ left.2.1 = {} := by
  unfold endPass
  refine (Exec.returns_any _).bind fun holds _ => ?_
  split
  · refine (S.finish_serves kept).bind fun left served => ?_
    exact Exec.returns_pure (served _)
  · refine (S.nextPass_returns kept active).bind fun later next => ?_
    split
    · rename_i frames pass
      exact Exec.returns_pure ⟨next.1, S.eventPass_proper pass next.2 rfl⟩
    · exact Exec.returns_pure ⟨next.1, next.2, rfl⟩

private theorem tryNext_serves {a now : Activation} (kept : a.Keeps now) (active : now.Active)
    (state : PassState) :
    (S.tryNext now state).Returns fun left => S.Serves a left.1 (.passes left.2.1) left.2.2 := by
  unfold tryNext
  refine (Exec.returns_any _).bind fun opened _ => ?_
  split
  · exact Exec.returns_pure ⟨kept, .push (.rule active rfl)⟩
  · refine (S.endPass_returns kept active opened).bind fun left closed => ?_
    obtain ⟨later, state, outcome⟩ := left
    cases outcome with
    | some outcome => exact Exec.returns_pure closed
    | none =>
        obtain ⟨keeps, stillActive, reset⟩ := closed
        change state = {} at reset
        subst state
        exact Exec.returns_pure ⟨keeps, .idle stillActive rfl⟩

theorem PassState.absorb_keeps (state : PassState) (a : Activation) (previous : Option RunResult) :
    a.Keeps (state.absorb a previous).1 := by
  cases previous with
  | none => exact .refl a
  | some result =>
      cases awaiting : state.awaiting with
      | nothing => simp only [PassState.absorb, awaiting]; exact .refl a
      | rule => simp only [PassState.absorb, awaiting]; exact .absorb a result
      | eventPass => simp only [PassState.absorb, awaiting]; exact .absorbEventPass a result

private theorem resumePasses_serves {a : Activation} (prepared : a.prepared = true)
    (state : PassState) (previous : Option RunResult) :
    (S.resumePasses a state previous).Returns fun left =>
      S.Serves a left.1 (.passes left.2.1) left.2.2 := by
  have kept := PassState.absorb_keeps state a previous
  unfold resumePasses
  cases taken : state.absorb a previous with
  | mk now closes =>
      rw [taken] at kept
      refine S.stop_serves kept prepared .passes _ fun active => ?_
      split
      · refine (S.endPass_returns kept active _).bind fun left closed => ?_
        obtain ⟨later, state, outcome⟩ := left
        cases outcome with
        | some outcome => exact Exec.returns_pure closed
        | none => exact S.tryNext_serves closed.1 closed.2.1 state
      · exact S.tryNext_serves kept active _

/-! ### Modules that follow a learner -/

private theorem decide_serves {a now : Activation} (kept : a.Keeps now) (active : now.Active)
    (candidates : List Candidate) :
    (S.decide now candidates).Returns fun left =>
      S.Serves a left.1 (.choices left.2.1) left.2.2 := by
  unfold Setting.decide
  refine (Exec.returns_any _).bind fun chosen _ => ?_
  split
  · exact Exec.returns_pure ⟨kept, .failed _ _⟩
  · refine (Exec.returns_any _).bind fun _ _ => ?_
    exact Exec.returns_pure ⟨kept, .push (.ownCombo active rfl)⟩

private theorem pause_serves {a now : Activation} (kept : a.Keeps now) (active : now.Active) :
    (S.pause now).Returns fun left => S.Serves a left.1 (.choices left.2.1) left.2.2 := by
  unfold pause
  refine (Exec.returns_any _).bind fun holds _ => ?_
  split
  · exact S.leave_serves kept .choices _
  · refine (S.nextPass_returns kept active).bind fun later next => ?_
    split
    · rename_i frames pass
      exact Exec.returns_pure ⟨next.1, S.eventPass_proper pass next.2 rfl⟩
    · exact Exec.returns_pure ⟨next.1, .idle next.2 rfl⟩

private theorem offer_serves {a now : Activation} (kept : a.Keeps now) (active : now.Active) :
    (S.offer now).Returns fun left => S.Serves a left.1 (.choices left.2.1) left.2.2 := by
  unfold offer
  refine (Exec.returns_any _).bind fun candidates _ => ?_
  split
  · exact Exec.returns_pure ⟨kept, .failed _ _⟩
  · exact S.pause_serves kept active
  · exact S.decide_serves kept active _

private theorem settle_serves {a now : Activation} (kept : a.Keeps now)
    (prepared : a.prepared = true) :
    (S.settle now).Returns fun left => S.Serves a left.1 (.choices left.2.1) left.2.2 := by
  unfold Setting.settle
  refine (Exec.returns_any _).bind fun _ _ => ?_
  refine S.stop_serves kept prepared .choices _ fun active => ?_
  refine (Exec.returns_any _).bind fun holds _ => ?_
  split
  · exact S.leave_serves kept .choices _
  · refine (S.nextPass_returns kept active).bind fun later next => ?_
    exact S.offer_serves next.1 next.2

theorem ChoiceState.absorb_keeps (state : ChoiceState) (a : Activation)
    (previous : Option RunResult) : a.Keeps (state.absorb a previous).1 := by
  cases previous with
  | none => exact .refl a
  | some result =>
      cases awaiting : state.awaiting with
      | nothing => simp only [ChoiceState.absorb, awaiting]; exact .refl a
      | combo => simp only [ChoiceState.absorb, awaiting]; exact .absorb a result
      | eventPass chose => simp only [ChoiceState.absorb, awaiting]; exact .absorbEventPass a result

private theorem resumeChoices_serves {a : Activation} (prepared : a.prepared = true)
    (state : ChoiceState) (previous : Option RunResult) :
    (S.resumeChoices a state previous).Returns fun left =>
      S.Serves a left.1 (.choices left.2.1) left.2.2 := by
  have kept := ChoiceState.absorb_keeps state a previous
  unfold resumeChoices
  cases taken : state.absorb a previous with
  | mk now stage =>
      rw [taken] at kept
      cases stage with
      | idle =>
          exact S.stop_serves kept prepared .choices _ fun active => S.offer_serves kept active
      | passed chose =>
          cases chose with
          | false =>
              exact S.stop_serves kept prepared .choices _ fun active => S.offer_serves kept active
          | true => exact S.settle_serves kept prepared
      | acted =>
          refine (S.mustStop_returns (kept.prepared prepared)).bind fun stop active => ?_
          cases stop with
          | true => exact (Exec.returns_any _).bind fun _ _ => S.leave_serves kept .choices _
          | false =>
              cases pass : S.eventPass now with
              | some frames =>
                  exact Exec.returns_pure ⟨kept, S.eventPass_proper pass (active rfl) rfl⟩
              | none => exact S.settle_serves kept prepared

/-! ### Modules that follow plans -/

theorem PlanState.absorb_keeps (state : PlanState) (a : Activation) (previous : Option RunResult) :
    a.Keeps (state.absorb a previous).1 ∧ (state.absorb a previous).2.awaitingStep = false := by
  cases previous with
  | none => exact ⟨.refl a, rfl⟩
  | some result =>
      cases awaiting : state.awaitingStep with
      | true => simp only [PlanState.absorb, awaiting]; exact ⟨.absorb a result, rfl⟩
      | false => simp only [PlanState.absorb, awaiting]; exact ⟨.refl a, awaiting⟩

private theorem PlanState.take?_awaits {state later : PlanState} {step : PlanStep}
    (taken : state.take? = some (step, later)) : later.awaitingStep = true := by
  unfold PlanState.take? at taken
  split at taken
  · cases taken; rfl
  · cases taken
  · cases taken

private theorem runStep_serves {a now : Activation} (kept : a.Keeps now) (active : now.Active)
    {state : PlanState} (awaiting : state.awaitingStep = true) (step : PlanStep) :
    (S.runStep now step).Returns fun outcome => S.Serves a now (.plans state) outcome := by
  unfold runStep
  refine (Exec.returns_any _).bind fun _ _ => ?_
  have combo : (StrategyState.plans state).waitsForCombo = true := awaiting
  exact Exec.returns_pure ⟨kept, .push (.ownCombo active combo)⟩

private theorem replan_serves {a now : Activation} (kept : a.Keeps now) (active : now.Active)
    {state : PlanState} (settled : state.awaitingStep = false) :
    (S.replan now state).Returns fun left => S.Serves a left.1 (.plans left.2.1) left.2.2 := by
  unfold replan
  refine (Exec.returns_any _).bind fun answer _ => ?_
  split
  · exact Exec.returns_pure ⟨kept, .failed _ _⟩
  · refine (Exec.returns_any _).bind fun _ _ => ?_
    dsimp only
    split
    · rename_i step later taken
      refine (S.runStep_serves kept active (PlanState.take?_awaits taken) step).bind
        fun outcome served => ?_
      exact Exec.returns_pure served
    · exact Exec.returns_pure ⟨kept, .idle active settled⟩

private theorem resumePlans_serves {a : Activation} (prepared : a.prepared = true)
    (state : PlanState) (previous : Option RunResult) :
    (S.resumePlans a state previous).Returns fun left =>
      S.Serves a left.1 (.plans left.2.1) left.2.2 := by
  obtain ⟨kept, settled⟩ := PlanState.absorb_keeps state a previous
  unfold resumePlans
  cases taken : state.absorb a previous with
  | mk now state =>
      rw [taken] at kept settled
      refine S.stop_serves kept prepared .plans _ fun active => ?_
      split
      · rename_i step later next
        refine (S.runStep_serves kept active (PlanState.take?_awaits next) step).bind
          fun outcome served => ?_
        exact Exec.returns_pure served
      · dsimp only
        split
        · refine (Exec.returns_any _).bind fun holds _ => ?_
          split
          · exact S.leave_serves kept .plans _
          · refine (S.nextPass_returns kept active).bind fun later next => ?_
            exact S.replan_serves next.1 next.2 settled
        · exact S.replan_serves kept active settled

/-! ### All frames -/

theorem pursue_returns {a : Activation} (prepared : a.prepared = true) (strategy : StrategyState)
    (previous : Option RunResult) :
    (S.pursue a strategy previous).Returns fun left =>
      a.Keeps left.1.activation ∧ S.Proper (.module left.1) left.2 := by
  cases strategy with
  | passes state =>
      refine (S.resumePasses_serves prepared state previous).bind fun left served => ?_
      exact Exec.returns_pure served
  | choices state =>
      refine (S.resumeChoices_serves prepared state previous).bind fun left served => ?_
      exact Exec.returns_pure served
  | plans state =>
      refine (S.resumePlans_serves prepared state previous).bind fun left served => ?_
      exact Exec.returns_pure served

/-- Preparation settles the order of a module and marks it, and changes nothing else of it. -/
theorem prepare_returns (a : Activation) :
    (S.prepare a).Returns fun left =>
      (∃ order prepared, left.1 = { a with order, prepared }) ∧
        (left.2 = none → left.1.prepared = true) := by
  unfold prepare
  refine (Exec.returns_any _).bind fun answer _ => ?_
  split
  · refine Exec.returns_pure ⟨⟨_, _, rfl⟩, ?_⟩
    intro impossible
    cases impossible
  · refine (Exec.returns_any _).bind fun _ _ => ?_
    refine (Exec.returns_any _).bind fun _ _ => ?_
    exact Exec.returns_pure ⟨⟨_, _, rfl⟩, fun _ => rfl⟩

private theorem resumeModule_returns (f : ModuleFrame) (previous : Option RunResult) :
    (S.resumeModule f previous).Returns fun left =>
      left.1.origin = f.origin ∧ S.Proper (.module left.1) left.2 := by
  unfold resumeModule
  split
  · rename_i prepared
    refine (S.pursue_returns prepared f.strategy previous).mono fun left served => ?_
    exact ⟨served.1.origin f.strategy left.1.strategy, served.2⟩
  · refine (S.prepare_returns f.activation).bind fun left entered => ?_
    obtain ⟨now, failure⟩ := left
    obtain ⟨⟨order, prepared, same⟩, success⟩ := entered
    have sameOrigin : (ModuleFrame.mk now f.strategy).origin = f.origin := by
      change now = _ at same
      subst now
      rfl
    cases failure with
    | some failure => exact Exec.returns_pure ⟨sameOrigin, .failed _ _⟩
    | none =>
        refine (S.pursue_returns (success rfl) f.strategy previous).mono fun left served => ?_
        exact ⟨(served.1.origin f.strategy left.1.strategy).trans sameOrigin, served.2⟩

private theorem ComboFrame.next_proper (f : ComboFrame) (actions : List Action) :
    S.Proper (.combo (f.next actions).1) (f.next actions).2 := by
  cases actions with
  | nil => exact .done _ _
  | cons action rest => exact .push (.action rfl rfl)

private theorem ComboFrame.next_origin (f : ComboFrame) (actions : List Action) :
    (Frame.combo (f.next actions).1).origin = (Frame.combo f).origin := by
  cases actions <;> rfl

theorem ComboFrame.resume_returns (f : ComboFrame) (previous : Option RunResult) :
    (Frame.combo (f.resume previous).1).origin = (Frame.combo f).origin ∧
      S.Proper (.combo (f.resume previous).1) (f.resume previous).2 := by
  unfold ComboFrame.resume
  split
  · exact ⟨next_origin f _, next_proper S f _⟩
  · exact ⟨next_origin f _, next_proper S f _⟩
  · dsimp only
    split
    · exact ⟨rfl, .done _ _⟩
    · exact ⟨next_origin _ _, next_proper S _ _⟩

private theorem fire_returns (f : RuleFrame) (options : List Instantiation) :
    (S.fire f options).Returns fun left =>
      (Frame.rule left.1).origin = (Frame.rule f).origin ∧ S.Proper (.rule left.1) left.2 := by
  cases options with
  | nil => exact Exec.returns_pure ⟨rfl, .done _ _⟩
  | cons option rest =>
      refine (Exec.returns_any _).bind fun _ _ => ?_
      exact Exec.returns_pure ⟨rfl, .push (.combo rfl)⟩

private theorem resumeRule_returns (f : RuleFrame) (previous : Option RunResult) :
    (S.resumeRule f previous).Returns fun left =>
      (Frame.rule left.1).origin = (Frame.rule f).origin ∧ S.Proper (.rule left.1) left.2 := by
  unfold resumeRule
  split
  · refine (Exec.returns_any _).bind fun answer _ => ?_
    split
    · exact Exec.returns_pure ⟨rfl, .failed _ _⟩
    · refine (Exec.returns_any _).bind fun options _ => ?_
      exact S.fire_returns f options
  · exact S.fire_returns f _
  · dsimp only
    split
    · exact Exec.returns_pure ⟨rfl, .done _ _⟩
    · exact (S.fire_returns _ _).mono fun _ fired => fired

private theorem expandCall_returns (f : ActionFrame) (target : CallTarget) (params : List Term)
    (source : Option Location) (isCall : f.action = .call target params source) :
    (S.expandCall f target params source).Returns fun left =>
      (Frame.action left.1).origin = (Frame.action f).origin ∧
        S.Proper (.action left.1) left.2 := by
  unfold expandCall
  split
  · exact Exec.returns_pure ⟨rfl, .failed _ _⟩
  · rename_i m found
    split
    · exact Exec.returns_pure ⟨rfl, .failed _ _⟩
    · rename_i bindings bound
      refine (Exec.returns_any _).bind fun _ _ => ?_
      have awaits : S.Awaits (.action { f with called := some m.anonymous }) 0
          (.module (.start m bindings (some f.order) f.focus)) := .module isCall found bound rfl
      exact Exec.returns_pure ⟨rfl, .push awaits⟩

/-- A plain action never yields. -/
theorem carryOut_returns (ground : UserAction) :
    (S.carryOut ground).Returns fun outcome => ∃ result, outcome.result? = some result := by
  unfold carryOut
  split
  · refine (Exec.returns_any _).bind fun answer _ => ?_
    split
    · exact Exec.returns_pure ⟨_, rfl⟩
    · refine (Exec.returns_any _).bind fun effects _ => ?_
      split
      · exact Exec.returns_pure ⟨_, rfl⟩
      · refine (Exec.returns_any _).bind fun _ _ => ?_
        exact Exec.returns_pure ⟨_, rfl⟩
  · exact Exec.returns_pure ⟨_, rfl⟩

theorem performUser_returns (action : UserAction) (substitution : Substitution) :
    (S.performUser action substitution).Returns fun outcome =>
      ∃ result, outcome.result? = some result := by
  unfold performUser
  refine (Exec.returns_any _).bind fun answer _ => ?_
  split
  · exact Exec.returns_pure ⟨_, rfl⟩
  · exact Exec.returns_pure ⟨_, rfl⟩
  · exact S.carryOut_returns _

theorem performMental_returns (action : MentalAction) :
    (S.performMental action).Returns fun outcome => ∃ result, outcome.result? = some result := by
  unfold performMental
  split
  · refine (Exec.returns_any _).bind fun answer _ => ?_
    split
    · exact Exec.returns_pure ⟨_, rfl⟩
    · refine (Exec.returns_any _).bind fun _ _ => ?_
      exact Exec.returns_pure ⟨_, rfl⟩
  · exact Exec.returns_pure ⟨_, rfl⟩

private theorem resumeAction_returns (f : ActionFrame) (previous : Option RunResult) :
    (S.resumeAction f previous).Returns fun left =>
      (Frame.action left.1).origin = (Frame.action f).origin ∧
        S.Proper (.action left.1) left.2 := by
  unfold resumeAction
  split
  · exact Exec.returns_pure ⟨rfl, .done _ _⟩
  · split
    · refine (S.performUser_returns _ _).bind fun outcome final => ?_
      obtain ⟨_, final⟩ := final
      exact Exec.returns_pure ⟨rfl, .of_result final⟩
    · refine (S.performMental_returns _).bind fun outcome final => ?_
      obtain ⟨_, final⟩ := final
      exact Exec.returns_pure ⟨rfl, .of_result final⟩
    · rename_i target params source isCall
      exact S.expandCall_returns f target params source isCall

/-- What a resumption can do: the frame keeps its identity and comes to a proper outcome. -/
theorem resume_returns (f : Frame) (previous : Option Completed) :
    (S.resume f previous).Returns fun left =>
      left.1.origin = f.origin ∧ S.Proper left.1 left.2 := by
  have withResult (result : Option RunResult) : (S.resumeWith f result).Returns fun left =>
      left.1.origin = f.origin ∧ S.Proper left.1 left.2 := by
    cases f with
    | module frame =>
        refine (S.resumeModule_returns frame result).bind fun left resumed => ?_
        exact Exec.returns_pure ⟨congrArg Frame.module resumed.1, resumed.2⟩
    | rule frame =>
        refine (S.resumeRule_returns frame result).bind fun left resumed => ?_
        exact Exec.returns_pure resumed
    | combo frame => exact Exec.returns_pure (ComboFrame.resume_returns S frame result)
    | action frame =>
        refine (S.resumeAction_returns frame result).bind fun left resumed => ?_
        exact Exec.returns_pure resumed
    | hole => exact Exec.returns_pure ⟨rfl, .done _ _⟩
  unfold resume
  cases previous with
  | none => exact withResult none
  | some completed =>
      cases returned : completed.result with
      | error failure => simp only [returned]; exact Exec.returns_pure ⟨rfl, .failed _ _⟩
      | ok result => simp only [returned]; exact withResult (some result)

theorem resume_hole (completed : Completed) (situation : Situation σ ω) :
    ∃ outcome, S.resume .hole (some completed) situation = ((.hole, outcome), situation) ∧
      outcome.result? = some completed.result := by
  obtain ⟨kind, result⟩ := completed
  cases result with
  | error failure => exact ⟨_, rfl, rfl⟩
  | ok result => exact ⟨_, rfl, rfl⟩

end Setting

end CognitiveAgent
