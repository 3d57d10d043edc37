import CognitiveAgent.Proofs.PassTurns

/-!
How a module conducts itself in one resumption, whatever its strategy. It asks whether to stop
before it goes on, and again when it leaves; the last answer decides the status that it leaves
with. It performs nothing itself, and it evaluates conditions only after it has heard that it need
not stop.
-/

set_option autoImplicit false

namespace CognitiveAgent

variable {σ ω : Type}

namespace Setting

variable (S : Setting σ ω)

/-- How a module goes on once it has heard that it need not stop: it waits, unless it leaves or
fails, and performs nothing. -/
structure Proceeds (now : RunResult) (anonymous : Bool) (later : RunResult) (outcome : Outcome)
    (seen : List Occurrence) : Prop where
  performs : ∀ o ∈ seen, o.isPerform = false
  waits : ∀ children, outcome = .yield children → later = now ∧ true ∉ polls seen
  leaves : ∀ r, outcome = .done r →
    ∃ stopped, (polls seen).getLast? = some stopped ∧ r = now.leaving stopped anonymous

/-- How a module conducts itself in one resumption, once the result it has waited for is taken
in. -/
structure Conducts (now : RunResult) (anonymous : Bool) (later : RunResult) (outcome : Outcome)
    (seen : List Occurrence) : Prop extends Proceeds now anonymous later outcome seen where
  heeds : ∀ children, outcome = .yield children → now.isRunning = true ∧ polls seen ≠ []
  evaluates : ∀ o ∈ seen, o.isEvaluation = true → false ∈ polls seen

private theorem departs_proceeds {a : Activation} {later : RunResult} {outcome : Outcome}
    {before seen : List Occurrence} (departs : a.Departs outcome seen)
    (performs : ∀ o ∈ before, o.isPerform = false) :
    Proceeds a.result a.module.anonymous later outcome (before ++ seen) := by
  obtain ⟨stopped, rest, rfl, quiet, ends⟩ := departs
  refine ⟨?_, ?_, ?_⟩
  · intro o member
    rcases List.mem_append.mp member with earlier | here
    · exact performs o earlier
    · rcases List.mem_cons.mp here with rfl | later
      · rfl
      · exact (quiet o later).perform
  · intro children yields
    subst yields
    rcases ends with ⟨_, impossible⟩ | impossible <;> cases impossible
  · intro r done
    subst done
    rcases ends with ⟨_, impossible⟩ | same
    · cases impossible
    · refine ⟨stopped, ?_, Outcome.done.inj same⟩
      rw [polls_append, polls_stopSignal, polls_of_silent fun o member => (quiet o member).toSilent]
      exact List.getLast?_concat

private theorem departs_conducts {a : Activation} {later : RunResult} {outcome : Outcome}
    {before seen : List Occurrence} (departs : a.Departs outcome seen)
    (idle : ∀ o ∈ before, o.Idle) :
    Conducts a.result a.module.anonymous later outcome (before ++ seen) := by
  refine ⟨departs_proceeds departs fun o member => (idle o member).perform, ?_, ?_⟩
  · intro children yields
    subst yields
    obtain ⟨_, _, _, _, ⟨_, impossible⟩ | impossible⟩ := departs <;> cases impossible
  · intro o member evaluates
    obtain ⟨stopped, rest, rfl, quiet, _⟩ := departs
    have never : o.isEvaluation = false := by
      rcases List.mem_append.mp member with earlier | here
      · exact (idle o earlier).evaluation
      · rcases List.mem_cons.mp here with rfl | later
        · rfl
        · exact (quiet o later).evaluation
    rw [never] at evaluates
    cases evaluates

section Proceeding

variable {now later : RunResult} {anonymous : Bool} {outcome : Outcome}
variable {before seen : List Occurrence}

theorem Proceeds.after (proceeds : Proceeds now anonymous later outcome seen)
    (silent : ∀ o ∈ before, o.Silent) :
    Proceeds now anonymous later outcome (before ++ seen) := by
  have same : polls (before ++ seen) = polls seen := by
    rw [polls_append, polls_of_silent silent, List.nil_append]
  refine ⟨?_, ?_, ?_⟩
  · intro o member
    rcases List.mem_append.mp member with earlier | here
    · exact (silent o earlier).perform
    · exact proceeds.performs o here
  · rw [same]
    exact proceeds.waits
  · rw [same]
    exact proceeds.leaves

/-- A module that has heard that it need not stop, and goes on. -/
theorem Proceeds.conducts (proceeds : Proceeds now anonymous later outcome seen)
    (running : now.isRunning = true) :
    Conducts now anonymous later outcome (.exchange .stopSignal false :: seen) := by
  refine ⟨⟨?_, ?_, ?_⟩, ?_, ?_⟩
  · intro o member
    rcases List.mem_cons.mp member with rfl | here
    · rfl
    · exact proceeds.performs o here
  · intro children yields
    obtain ⟨same, lowered⟩ := proceeds.waits children yields
    refine ⟨same, ?_⟩
    rw [polls_stopSignal, List.mem_cons]
    rintro (impossible | raised)
    · cases impossible
    · exact lowered raised
  · intro r done
    obtain ⟨stopped, last, result⟩ := proceeds.leaves r done
    refine ⟨stopped, ?_, result⟩
    rw [polls_stopSignal, List.getLast?_cons, last]
    rfl
  · intro children yields
    exact ⟨running, List.cons_ne_nil _ _⟩
  · intro o member evaluates
    exact List.mem_cons_self

theorem Conducts.after (conducts : Conducts now anonymous later outcome seen)
    (idle : ∀ o ∈ before, o.Idle) (lowered : true ∉ polls before) :
    Conducts now anonymous later outcome (before ++ seen) := by
  refine ⟨⟨?_, ?_, ?_⟩, ?_, ?_⟩
  · intro o member
    rcases List.mem_append.mp member with earlier | here
    · exact (idle o earlier).perform
    · exact conducts.performs o here
  · intro children yields
    obtain ⟨same, stillLowered⟩ := conducts.waits children yields
    refine ⟨same, ?_⟩
    rw [polls_append, List.mem_append]
    rintro (raised | raised)
    · exact lowered raised
    · exact stillLowered raised
  · intro r done
    obtain ⟨stopped, last, result⟩ := conducts.leaves r done
    refine ⟨stopped, ?_, result⟩
    rw [polls_append, List.getLast?_append, last]
    rfl
  · intro children yields
    obtain ⟨running, asked⟩ := conducts.heeds children yields
    refine ⟨running, ?_⟩
    rw [polls_append]
    exact List.append_ne_nil_of_right_ne_nil _ asked
  · intro o member evaluates
    rw [polls_append, List.mem_append]
    rcases List.mem_append.mp member with earlier | here
    · rw [(idle o earlier).evaluation] at evaluates
      cases evaluates
    · exact .inr (conducts.evaluates o here evaluates)

private theorem proceeds_yield (children : List Frame) (silent : ∀ o ∈ seen, o.Silent) :
    Proceeds now anonymous now (.yield children) seen := by
  refine ⟨fun o member => (silent o member).perform, ?_, ?_⟩
  · intro _ _
    rw [polls_of_silent silent]
    exact ⟨rfl, List.not_mem_nil⟩
  · intro r impossible
    cases impossible

private theorem proceeds_failed (failure : Failure) (silent : ∀ o ∈ seen, o.Silent) :
    Proceeds now anonymous later (.failed failure) seen := by
  refine ⟨fun o member => (silent o member).perform, ?_, ?_⟩
  · intro children impossible
    cases impossible
  · intro r impossible
    cases impossible

end Proceeding

private theorem ends_proceeds {now : Activation} {ended : Activation × PassState × Option Outcome}
    {judged rest : List Occurrence} (ends : S.EndsPass now ended judged rest) :
    Proceeds now.result now.module.anonymous ended.1.result (ended.2.2.getD (.yield []))
      (judged ++ rest) := by
  obtain ⟨later, state, outcome⟩ := ended
  rcases ends with ⟨judges, outcome, rfl, departs⟩ | ⟨judges, quiet, rfl, goesOn⟩
  · exact departs_proceeds departs fun o member => (judges.calm o member).perform
  · have silent : ∀ o ∈ judged ++ rest, o.Silent := by
      intro o member
      rcases List.mem_append.mp member with first | second
      · exact (judges.calm o first).toSilent
      · exact (quiet o second).toSilent
    rcases goesOn with ⟨frames, _, same⟩ | ⟨_, same⟩
    · cases same
      exact proceeds_yield frames silent
    · cases same
      exact proceeds_yield [] silent

private theorem passTurn_conducts {now : Activation} {state : PassState} {closes : Bool}
    {left : Activation × PassState × Outcome} {seen : List Occurrence}
    (turn : S.PassTurn now state closes left seen) :
    Conducts now.result now.module.anonymous left.1.result left.2.2 seen := by
  have silent {judged rest : List Occurrence} {holds : Bool} (judges : now.Judges holds judged)
      (quiet : ∀ o ∈ rest, o.Quiet) : ∀ o ∈ judged ++ rest, o.Silent := by
    intro o member
    rcases List.mem_append.mp member with first | second
    · exact (judges.calm o first).toSilent
    · exact (quiet o second).toSilent
  cases turn with
  | stops cause departs =>
      refine departs_conducts departs ?_
      rcases cause with ⟨_, rfl⟩ | rfl
      · exact fun o member => absurd member List.not_mem_nil
      · intro o member
        rw [List.mem_singleton.mp member]
        exact ⟨rfl, rfl⟩
  | tries running goesOn next =>
      exact (proceeds_yield _ fun o member => absurd member List.not_mem_nil).conducts running
  | exits running ends judges departs =>
      exact (departs_proceeds departs fun o member => (judges.calm o member).perform).conducts
        running
  | separates running ends judges quiet events =>
      exact (proceeds_yield _ (silent judges quiet)).conducts running
  | reopens running ends judges quiet noEvents arranges =>
      exact (proceeds_yield _ (silent judges quiet)).conducts running
  | idles running goesOn nothing judges quiet noEvents =>
      exact (proceeds_yield _ (silent judges quiet)).conducts running
  | recloses running closed ruleless judges quiet ends =>
      exact ((S.ends_proceeds ends).after (silent judges quiet)).conducts running

/-! ### Modules that follow a learner -/

private theorem candidatesOf_silent (incoming : Substitution) (rules : List (Rule × Nat)) :
    (S.traced.candidatesOf incoming rules).Only Occurrence.Silent := by
  have instantiating (rule : Rule) :
      (S.traced.instantiate rule incoming).Only Occurrence.Silent := by
    refine ((S.emit_quiet _ _ _ _ _).mono fun _ quiet => quiet.toSilent).bind fun _ => ?_
    refine (S.ask_only fun answer => ⟨rfl, rfl⟩).bind fun answer => ?_
    cases answer <;> exact Exec.only_pure _
  induction rules with
  | nil => exact Exec.only_pure _
  | cons numbered rest ih =>
      obtain ⟨rule, index⟩ := numbered
      refine (instantiating rule).bind fun options => ?_
      cases options with
      | error failure => exact Exec.only_pure _
      | ok options =>
          refine ih.bind fun others => ?_
          cases others <;> exact Exec.only_pure _

private theorem reportReward_calm (a : Activation) :
    (S.traced.reportReward a).Only Occurrence.Calm := by
  have rewarding : S.traced.rewardNow.Only Occurrence.Calm := by
    refine (S.ask_only fun answer => ⟨⟨rfl, rfl⟩, rfl⟩).bind fun reward => ?_
    cases reward with
    | some reward => exact Exec.only_pure _
    | none =>
        refine (S.ask_only fun answer => ⟨⟨rfl, rfl⟩, rfl⟩).bind fun goals => ?_
        cases goals <;> exact Exec.only_pure _
  refine rewarding.bind fun reward => ?_
  refine (S.ask_only fun answer => ⟨⟨rfl, rfl⟩, rfl⟩).bind fun _ => ?_
  exact (S.emit_quiet _ _ _ _ _).mono fun _ quiet => quiet.toCalm

private theorem decide_logs (a : Activation) (candidates : List Candidate) :
    (S.traced.decide a candidates).Logs fun left seen =>
      Proceeds a.result a.module.anonymous left.1.result left.2.2 seen := by
  have asked : (S.traced.ask (.choose a.module.name candidates)).Only Occurrence.Silent :=
    S.ask_only fun answer => ⟨rfl, rfl⟩
  unfold Setting.decide
  refine Exec.Logs.bind asked fun chosen seen silent => ?_
  split
  · refine Exec.logs_pure ?_
    rw [List.append_nil]
    exact proceeds_failed _ silent
  · refine Exec.Logs.bind (S.emit_quiet _ _ _ _ _) fun _ more quiet => ?_
    refine Exec.logs_pure ?_
    rw [List.append_nil]
    exact (proceeds_yield _ fun o member => (quiet o member).toSilent).after silent

private theorem pause_logs (a : Activation) :
    (S.traced.pause a).Logs fun left seen =>
      Proceeds a.result a.module.anonymous left.1.result left.2.2 seen := by
  unfold pause
  refine (S.exitHolds_logs a).bind fun holds judged judges => ?_
  have silent : ∀ o ∈ judged, o.Silent := fun o member => (judges.calm o member).toSilent
  cases holds with
  | true =>
      refine (S.finish_logs a).bind fun left seen departs => ?_
      refine Exec.logs_pure ?_
      rw [List.append_nil]
      exact departs_proceeds departs fun o member => (silent o member).perform
  | false =>
      refine (S.nextPass_logs a).bind fun later seen next => ?_
      obtain ⟨rfl, quiet⟩ := next
      have waits (children : List Frame) : Proceeds a.result a.module.anonymous a.result
          (.yield children) (judged ++ (seen ++ [])) := by
        rw [List.append_nil]
        exact (proceeds_yield children fun o member => (quiet o member).toSilent).after silent
      split
      · exact Exec.logs_pure (waits _)
      · exact Exec.logs_pure (waits _)

private theorem offer_logs (a : Activation) :
    (S.traced.offer a).Logs fun left seen =>
      Proceeds a.result a.module.anonymous left.1.result left.2.2 seen := by
  unfold offer
  refine Exec.Logs.bind (S.candidatesOf_silent _ _) fun found seen silent => ?_
  split
  · refine Exec.logs_pure ?_
    rw [List.append_nil]
    exact proceeds_failed _ silent
  · exact (S.pause_logs a).mono fun left more proceeds => proceeds.after silent
  · exact (S.decide_logs a _).mono fun left more proceeds => proceeds.after silent

/-- A module that must stop does nothing but leave, and any other one has heard that it need
not. -/
theorem mustStop_conducts {ρ : Type} {a : Activation} {state : ρ}
    {proceed : Exec σ (List Occurrence) (Activation × ρ × Outcome)}
    (proceeds : proceed.Logs fun left seen =>
      Proceeds a.result a.module.anonymous left.1.result left.2.2 seen) :
    (do
      if ← S.traced.mustStop a then
        let (left, outcome) ← S.traced.finish a
        return (left, state, outcome)
      else proceed).Logs fun left seen =>
        Conducts a.result a.module.anonymous left.1.result left.2.2 seen := by
  refine (S.mustStop_logs a).bind fun stop asked polled => ?_
  cases stop with
  | true =>
      refine (S.finish_logs a).bind fun left seen departs => ?_
      refine Exec.logs_pure ?_
      rw [List.append_nil]
      refine departs_conducts departs ?_
      rcases polled with ⟨_, _, rfl⟩ | ⟨_, rfl⟩
      · exact fun o member => absurd member List.not_mem_nil
      · intro o member
        rw [List.mem_singleton.mp member]
        exact ⟨rfl, rfl⟩
  | false =>
      rcases polled with ⟨_, impossible, _⟩ | ⟨running, rfl⟩
      · cases impossible
      · exact proceeds.mono fun left seen onward => onward.conducts running

private theorem settle_logs (a : Activation) :
    (S.traced.settle a).Logs fun left seen =>
      Conducts a.result a.module.anonymous left.1.result left.2.2 seen := by
  unfold Setting.settle
  refine Exec.Logs.bind (S.reportReward_calm a) fun _ reported calm => ?_
  have lowered : true ∉ polls reported := by
    rw [polls_of_silent fun o member => (calm o member).toSilent]
    exact List.not_mem_nil
  refine (S.mustStop_conducts ?_).mono fun left seen conducts =>
    conducts.after (fun o member => (calm o member).idle) lowered
  refine (S.exitHolds_logs a).bind fun holds judged judges => ?_
  have silent : ∀ o ∈ judged, o.Silent := fun o member => (judges.calm o member).toSilent
  cases holds with
  | true =>
      refine (S.finish_logs a).bind fun left seen departs => ?_
      refine Exec.logs_pure ?_
      rw [List.append_nil]
      exact departs_proceeds departs fun o member => (silent o member).perform
  | false =>
      refine (S.nextPass_logs a).bind fun later seen next => ?_
      obtain ⟨rfl, quiet⟩ := next
      refine (S.offer_logs _).mono fun left more proceeds => ?_
      exact (proceeds.after fun o member => (quiet o member).toSilent).after silent

private theorem resumeChoices_logs (a : Activation) (state : ChoiceState)
    (previous : Option RunResult) :
    (S.traced.resumeChoices a state previous).Logs fun left seen =>
      Conducts (state.absorb a previous).1.result (state.absorb a previous).1.module.anonymous
        left.1.result left.2.2 seen := by
  unfold resumeChoices
  obtain ⟨now, stage⟩ := state.absorb a previous
  cases stage with
  | idle => exact S.mustStop_conducts (S.offer_logs now)
  | passed chose =>
      cases chose with
      | true => exact S.settle_logs now
      | false => exact S.mustStop_conducts (S.offer_logs now)
  | acted =>
      refine (S.mustStop_logs now).bind fun stop asked polled => ?_
      have idle : ∀ o ∈ asked, o.Idle := by
        rcases polled with ⟨_, _, rfl⟩ | ⟨_, rfl⟩
        · exact fun o member => absurd member List.not_mem_nil
        · intro o member
          rw [List.mem_singleton.mp member]
          exact ⟨rfl, rfl⟩
      cases stop with
      | true =>
          refine Exec.Logs.bind (S.reportReward_calm now) fun _ reported calm => ?_
          refine (S.finish_logs now).bind fun left seen departs => ?_
          refine Exec.logs_pure ?_
          rw [List.append_nil, ← List.append_assoc]
          refine departs_conducts departs ?_
          intro o member
          rcases List.mem_append.mp member with first | second
          · exact idle o first
          · exact (calm o second).idle
      | false =>
          rcases polled with ⟨_, impossible, _⟩ | ⟨running, rfl⟩
          · cases impossible
          · have same : S.traced.eventPass now = S.eventPass now := rfl
            dsimp only
            rw [same]
            cases S.eventPass now with
            | some frames =>
                refine Exec.logs_pure ?_
                have waits : Proceeds now.result now.module.anonymous now.result (.yield frames)
                    [] := proceeds_yield frames fun o member => absurd member List.not_mem_nil
                exact waits.conducts running
            | none =>
                refine (S.settle_logs now).mono fun left seen conducts => conducts.after idle ?_
                rw [polls_stopSignal, polls_nil, List.mem_singleton]
                exact Bool.noConfusion

/-! ### Modules that follow plans -/

private theorem runStep_logs (a : Activation) (step : PlanStep) :
    (S.traced.runStep a step).Logs fun outcome seen =>
      Proceeds a.result a.module.anonymous a.result outcome seen := by
  unfold runStep
  refine Exec.Logs.bind (S.emit_quiet _ _ _ _ _) fun _ seen quiet => ?_
  refine Exec.logs_pure ?_
  rw [List.append_nil]
  exact proceeds_yield _ fun o member => (quiet o member).toSilent

private theorem replan_logs (a : Activation) (state : PlanState) :
    (S.traced.replan a state).Logs fun left seen =>
      Proceeds a.result a.module.anonymous left.1.result left.2.2 seen := by
  have asked : (S.traced.ask (.plan a.module a.substitution)).Only Occurrence.Silent :=
    S.ask_only fun answer => ⟨rfl, rfl⟩
  unfold replan
  refine Exec.Logs.bind asked fun answer seen silent => ?_
  cases answer with
  | error fault =>
      refine Exec.logs_pure ?_
      rw [List.append_nil]
      exact proceeds_failed _ silent
  | ok plan =>
      refine Exec.Logs.bind (S.emit_quiet _ _ _ _ _) fun _ more quiet => ?_
      have silentToo : ∀ o ∈ more, o.Silent := fun o member => (quiet o member).toSilent
      dsimp only
      split
      · refine (S.runStep_logs a _).bind fun outcome last proceeds => ?_
        refine Exec.logs_pure ?_
        rw [List.append_nil]
        exact (proceeds.after silentToo).after silent
      · refine Exec.logs_pure ?_
        rw [List.append_nil]
        exact (proceeds_yield _ silentToo).after silent

private theorem resumePlans_logs (a : Activation) (state : PlanState)
    (previous : Option RunResult) :
    (S.traced.resumePlans a state previous).Logs fun left seen =>
      Conducts (state.absorb a previous).1.result (state.absorb a previous).1.module.anonymous
        left.1.result left.2.2 seen := by
  unfold resumePlans
  obtain ⟨now, state⟩ := state.absorb a previous
  refine S.mustStop_conducts ?_
  split
  · refine (S.runStep_logs now _).bind fun outcome seen proceeds => ?_
    refine Exec.logs_pure ?_
    rw [List.append_nil]
    exact proceeds
  · dsimp only
    split
    · refine (S.exitHolds_logs now).bind fun holds judged judges => ?_
      have silent : ∀ o ∈ judged, o.Silent := fun o member => (judges.calm o member).toSilent
      cases holds with
      | true =>
          refine (S.finish_logs now).bind fun left seen departs => ?_
          refine Exec.logs_pure ?_
          rw [List.append_nil]
          exact departs_proceeds departs fun o member => (silent o member).perform
      | false =>
          refine (S.nextPass_logs now).bind fun later seen next => ?_
          obtain ⟨rfl, quiet⟩ := next
          refine (S.replan_logs _ _).mono fun left more proceeds => ?_
          exact (proceeds.after fun o member => (quiet o member).toSilent).after silent
    · exact S.replan_logs now _

/-! ### Resuming a module -/

end Setting

def StrategyState.absorb (strategy : StrategyState) (a : Activation)
    (previous : Option RunResult) : Activation :=
  match strategy with
  | .passes state => (state.absorb a previous).1
  | .choices state => (state.absorb a previous).1
  | .plans state => (state.absorb a previous).1

namespace StrategyState

variable (strategy : StrategyState) (a : Activation)

theorem absorb_none : strategy.absorb a none = a := by
  cases strategy <;> rfl

theorem absorb_keeps (previous : Option RunResult) : a.Keeps (strategy.absorb a previous) := by
  cases strategy with
  | passes state => exact Setting.PassState.absorb_keeps state a previous
  | choices state => exact Setting.ChoiceState.absorb_keeps state a previous
  | plans state => exact (Setting.PlanState.absorb_keeps state a previous).1

/-- What is taken in does not depend on the preparation. -/
theorem absorb_prepared (order : RuleOrder) (prepared : Bool) (previous : Option RunResult) :
    (strategy.absorb { a with order, prepared } previous).result =
      (strategy.absorb a previous).result := by
  cases previous with
  | none => rw [absorb_none, absorb_none]
  | some result =>
      cases strategy with
      | passes state =>
          simp only [absorb, PassState.absorb]
          cases state.awaiting <;> rfl
      | choices state =>
          simp only [absorb, ChoiceState.absorb]
          cases state.awaiting <;> rfl
      | plans state =>
          simp only [absorb, PlanState.absorb]
          cases state.awaitingStep <;> rfl

end StrategyState

namespace Setting

variable (S : Setting σ ω)

private theorem pursue_logs (a : Activation) (strategy : StrategyState)
    (previous : Option RunResult) :
    (S.traced.pursue a strategy previous).Logs fun left seen =>
      Conducts (strategy.absorb a previous).result a.module.anonymous
        left.1.activation.result left.2 seen := by
  have same : (strategy.absorb a previous).module = a.module := by
    obtain ⟨_, _, shape⟩ := strategy.absorb_keeps a previous
    rw [shape]
  rw [← same]
  cases strategy with
  | passes state =>
      refine (S.resumePasses_logs a state previous).bind fun left seen turn => ?_
      refine Exec.logs_pure ?_
      rw [List.append_nil]
      exact S.passTurn_conducts turn
  | choices state =>
      refine (S.resumeChoices_logs a state previous).bind fun left seen conducts => ?_
      refine Exec.logs_pure ?_
      rw [List.append_nil]
      exact conducts
  | plans state =>
      refine (S.resumePlans_logs a state previous).bind fun left seen conducts => ?_
      refine Exec.logs_pure ?_
      rw [List.append_nil]
      exact conducts

/-- A module that is resumed conducts itself well, with its preparation before where it has not
been entered yet. -/
theorem resumeModule_logs (g : ModuleFrame) (previous : Option RunResult) :
    (S.traced.resumeModule g previous).Logs fun left seen =>
      Conducts (g.strategy.absorb g.activation previous).result g.activation.module.anonymous
        left.1.activation.result left.2 seen := by
  unfold resumeModule
  split
  · exact S.pursue_logs _ _ _
  · refine ((S.prepare_quiet g.activation).and_returns (S.traced.prepare_returns g.activation)).bind
      fun prepared seen entered => ?_
    obtain ⟨quiet, ⟨order, marked, same⟩, _⟩ := entered
    obtain ⟨now, failure⟩ := prepared
    change now = _ at same
    subst same
    have idle : ∀ o ∈ seen, o.Idle := fun o member => (quiet o member).toCalm.idle
    have lowered : true ∉ polls seen := by
      rw [polls_of_silent fun o member => (quiet o member).toSilent]
      exact List.not_mem_nil
    cases failure with
    | some failure =>
        refine Exec.logs_pure (Conducts.after ?_ idle lowered)
        refine ⟨proceeds_failed failure fun o member => absurd member List.not_mem_nil, ?_, ?_⟩
        · intro children impossible
          cases impossible
        · intro o member
          cases member
    | none =>
        refine (S.pursue_logs _ _ _).mono fun left more conducts => ?_
        rw [StrategyState.absorb_prepared] at conducts
        exact conducts.after idle lowered

end Setting

end CognitiveAgent
