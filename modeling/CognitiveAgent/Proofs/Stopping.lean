import CognitiveAgent.Proofs.Waiting

/-!
What a frame makes of a child that asks to stop. Holes, rules and calls of anonymous modules pass
the request on, a combo goes on behind a call, a module leaves. The call of a named module and
the main module after an event pass drop it.
-/

set_option autoImplicit false

namespace CognitiveAgent

variable {σ ω : Type}

namespace RunResult

theorem merge_isRunning (r s : RunResult) :
    (r.merge s).isRunning = (r.isRunning && s.isRunning) := by
  obtain ⟨status, _, _⟩ := r
  obtain ⟨other, _, _⟩ := s
  cases status <;> cases other <;> rfl

theorem merge_stops_left {r : RunResult} (stops : r.isRunning = false) (s : RunResult) :
    (r.merge s).isRunning = false := by
  rw [merge_isRunning, stops, Bool.false_and]

theorem merge_stops_right (r : RunResult) {s : RunResult} (stops : s.isRunning = false) :
    (r.merge s).isRunning = false := by
  rw [merge_isRunning, stops, Bool.and_false]

theorem isFailure_of_stops {r : RunResult} (stops : r.isRunning = false) : r.isFailure = true := by
  unfold isFailure
  rw [stops]
  rfl

end RunResult

private theorem Activation.stops_ite {a b : Activation} {condition : Prop} [Decidable condition]
    (yes : a.result.isRunning = false) (no : b.result.isRunning = false) :
    (if condition then a else b).result.isRunning = false := by
  split
  · exact yes
  · exact no

/-- The next action is all that a combo starts. It is done after its last one, or after a plain
action that failed. -/
theorem ComboFrame.resume_stopping {c : ComboFrame} {pending : List Action} {r : RunResult}
    (begun : c.pending = some pending) (stops : (c.result.merge r).isRunning = false) :
    (∃ later result, c.resume (some r) = (later, .done result) ∧ result.isRunning = false) ∨
    ∃ action rest result, pending = action :: rest ∧ result.isRunning = false ∧
      (c.lastWasCall = true ∨ r.isFailure = false) ∧
      c.resume (some r) =
        ({ c with pending := some rest, lastWasCall := action.isCall, result },
          .yield [.action { action, substitution := c.substitution, focus := c.focus,
                            order := c.order }]) := by
  unfold resume
  rw [begun]
  dsimp only
  split
  · exact .inl ⟨_, _, rfl, stops⟩
  · rename_i proceeds
    cases pending with
    | nil => exact .inl ⟨_, _, rfl, stops⟩
    | cons action rest =>
        refine .inr ⟨action, rest, _, rfl, stops, ?_, rfl⟩
        cases call : c.lastWasCall with
        | true => exact .inl rfl
        | false =>
            rw [call] at proceeds
            exact .inr (Bool.eq_false_iff.mpr proceeds)

namespace Setting

variable (S : Setting σ ω)

theorem resume_called {a : ActionFrame} {anonymous : Bool} (called : a.called = some anonymous)
    (kind : FrameKind) (r : RunResult) :
    S.resume (.action a) (some ⟨kind, .ok r⟩) = pure (.action a, .done (r.ofCall anonymous)) := by
  simp only [resume, resumeWith, resumeAction, called]
  rfl

theorem resume_exit {x : ActionFrame} (exits : x.action = .mental .exit) (called : x.called = none)
    (situation : Situation σ ω) :
    (S.resume (.action x) none situation).1 =
      (.action x, .done { RunResult.action with status := .softStop }) := by
  simp only [resume, resumeWith, resumeAction, called, exits]
  rfl

theorem resume_combo (c : ComboFrame) (kind : FrameKind) (r : RunResult) :
    S.resume (.combo c) (some ⟨kind, .ok r⟩) =
      pure (.combo (c.resume (some r)).1, (c.resume (some r)).2) := rfl

theorem resume_fired {g : RuleFrame} {pending : List Instantiation} {r : RunResult}
    (begun : g.pending = some pending) (stops : r.isRunning = false) (kind : FrameKind) :
    S.resume (.rule g) (some ⟨kind, .ok r⟩) =
      pure (.rule { g with result := g.result.merge r }, .done (g.result.merge r)) := by
  simp only [resume, resumeWith, resumeRule, begun, RuleFrame.endsWith, stops, Bool.not_false,
    Bool.true_or, if_true]
  rfl

/-! ### Modules -/

/-- Leaves a module that has been asked to stop. A module that follows a learner rewards its last
choice before. -/
def conclude (strategy : StrategyState) (a : Activation) : Exec σ ω (Activation × Outcome) :=
  match strategy with
  | .passes _ | .plans _ => S.finish a
  | .choices _ => do
    S.reportReward a
    S.finish a

/-- A module that leaves after a request to stop asks for a stop itself. -/
theorem finish_stopping {a : Activation} (stops : a.result.isRunning = false) :
    (S.finish a).Returns fun left => ∀ r, left.2 = .done r → r.isRunning = false := by
  unfold finish
  refine (Exec.returns_any _).bind fun stopped _ => ?_
  refine (Exec.returns_any _).bind fun answer _ => ?_
  have still : (if stopped = true then
      { a with result := a.result.merge (.stopped .hardStop) } else a).result.isRunning = false :=
    Activation.stops_ite (RunResult.merge_stops_left stops _) stops
  cases answer with
  | error fault =>
      refine Exec.returns_pure ?_
      intro r impossible
      cases impossible
  | ok _ =>
      refine (Exec.returns_any _).bind fun _ _ => ?_
      refine (Exec.returns_any _).bind fun _ _ => ?_
      refine Exec.returns_pure ?_
      intro r same
      cases same
      exact Activation.stops_ite still (RunResult.merge_stops_left still _)

theorem conclude_stopping (strategy : StrategyState) {a : Activation}
    (stops : a.result.isRunning = false) :
    (S.conclude strategy a).Returns fun left =>
      (∃ result, left.2.result? = some result) ∧ ∀ r, left.2 = .done r → r.isRunning = false := by
  have leaves : (S.finish a).Returns fun left =>
      (∃ result, left.2.result? = some result) ∧ ∀ r, left.2 = .done r → r.isRunning = false :=
    fun situation => ⟨(S.finish_returns a situation).2, S.finish_stopping stops situation⟩
  cases strategy with
  | passes state => exact leaves
  | plans state => exact leaves
  | choices state => exact (Exec.returns_any _).bind fun _ _ => leaves

/-- A module whose own work asks to stop does nothing but leave. -/
theorem resume_leaving {g : ModuleFrame} {child : Frame} {holes : Nat} {r : RunResult}
    (awaits : S.Awaits (.module g) holes child) (own : g.strategy.waitsForEvents = false)
    (stops : r.isRunning = false) (kind : FrameKind) :
    ∃ strategy, S.resume (.module g) (some ⟨kind, .ok r⟩) =
      (fun left => (Frame.module ⟨left.1, strategy⟩, left.2)) <$>
        S.conclude g.strategy (g.activation.absorb r) := by
  have asked (a : Activation) : S.mustStop (a.absorb r) = pure true := by
    have still : (a.absorb r).result.isRunning = false := RunResult.merge_stops_right _ stops
    unfold mustStop
    rw [still]
    rfl
  cases awaits with
  | @rule _ state _ _ active awaiting =>
      refine ⟨.passes { state with awaiting := .nothing }, ?_⟩
      simp only [resume, resumeWith, resumeModule, active.prepared, if_true, pursue, resumePasses,
        PassState.absorb, awaiting, asked]
      rfl
  | @ownCombo a strategy _ _ _ active awaiting =>
      cases strategy with
      | passes state => cases awaiting
      | choices state =>
          have isCombo : state.awaiting = .combo := eq_of_beq awaiting
          refine ⟨.choices {}, ?_⟩
          simp only [resume, resumeWith, resumeModule, active.prepared, if_true, pursue,
            resumeChoices, ChoiceState.absorb, isCombo, asked]
          rfl
      | plans state =>
          have isStep : state.awaitingStep = true := awaiting
          refine ⟨.plans (state.absorb a (some r)).2, ?_⟩
          simp only [resume, resumeWith, resumeModule, active.prepared, if_true, pursue,
            resumePlans, PlanState.absorb, isStep, asked]
          rfl
  | events active awaiting main event =>
      rw [own] at awaiting
      cases awaiting

/-- The main module does not see whether the event pass has asked to stop. -/
theorem resume_after_events {g : ModuleFrame} (awaiting : g.strategy.waitsForEvents = true)
    (kind : FrameKind) (r : RunResult) :
    S.resume (.module g) (some ⟨kind, .ok r⟩) =
      S.resume (.module g) (some ⟨kind, .ok { r with status := .running }⟩) := by
  obtain ⟨a, strategy⟩ := g
  cases strategy with
  | passes state =>
      have isEvents : state.awaiting = .eventPass := eq_of_beq awaiting
      simp only [resume, resumeWith, resumeModule, pursue, resumePasses, PassState.absorb, isEvents]
      rfl
  | choices state =>
      cases stage : state.awaiting with
      | nothing => rw [StrategyState.waitsForEvents, stage] at awaiting; cases awaiting
      | combo => rw [StrategyState.waitsForEvents, stage] at awaiting; cases awaiting
      | eventPass chose =>
          simp only [resume, resumeWith, resumeModule, pursue, resumeChoices, ChoiceState.absorb,
            stage]
          rfl
  | plans state => cases awaiting

end Setting

end CognitiveAgent
