import CognitiveAgent.Proofs.Conduct

/-!
What becomes of results. A frame takes in what its child came to, and either waits with that or is
done with it; a module adds what it hears when it leaves. Only plain actions bring something new,
and they bring a performed action exactly when the environment was asked.
-/

set_option autoImplicit false

namespace CognitiveAgent

variable {σ ω : Type}

namespace Frame

def result : Frame → RunResult
  | .module g => g.activation.result
  | .rule g => g.result
  | .combo c => c.result
  | .action _ | .hole => .start

def taken : Frame → Option RunResult → RunResult
  | .module g, previous => (g.strategy.absorb g.activation previous).result
  | .rule g, some r => if g.pending.isSome then g.result.merge r else g.result
  | .rule g, none => g.result
  | .combo c, some r => if c.pending.isSome then c.result.merge r else c.result
  | .combo c, none => c.result
  | .action x, previous =>
    match x.called with
    | some anonymous => (previous.getD .start).ofCall anonymous
    | none => .start
  | .hole, previous => previous.getD .start

def isPlain : Frame → Bool
  | .action x => x.called.isNone && !x.action.isCall
  | _ => false

theorem result_of_fresh {f : Frame} (fresh : f.origin = f) : f.result = .start := by
  cases f with
  | module g => rw [← fresh]; rfl
  | rule g => rw [← fresh]; rfl
  | combo c => rw [← fresh]; rfl
  | action x => rfl
  | hole => rfl

theorem waits_of_fresh {f : Frame} (fresh : f.origin = f) : f.waits = false := by
  cases f with
  | module g =>
      rw [← fresh]
      exact StrategyState.start_waits _
  | rule g => rw [← fresh]; rfl
  | combo c => rw [← fresh]; rfl
  | action x => rw [← fresh]; rfl
  | hole => rfl

end Frame

/-- A module that waits merges what it has waited for; of an event pass, without the status. -/
theorem StrategyState.absorb_result {strategy : StrategyState} (a : Activation)
    (waits : strategy.waits = true) (r : RunResult) :
    (strategy.absorb a (some r)).result =
      a.result.merge (if strategy.waitsForEvents then r.ofCall false else r) := by
  cases strategy with
  | passes state =>
      cases awaiting : state.awaiting with
      | nothing => rw [StrategyState.waits, awaiting] at waits; cases waits
      | rule =>
          simp only [absorb, PassState.absorb, waitsForEvents, awaiting]
          rfl
      | eventPass =>
          simp only [absorb, PassState.absorb, waitsForEvents, awaiting]
          rfl
  | choices state =>
      cases awaiting : state.awaiting with
      | nothing => rw [StrategyState.waits, awaiting] at waits; cases waits
      | combo =>
          simp only [absorb, ChoiceState.absorb, waitsForEvents, awaiting]
          rfl
      | eventPass chose =>
          simp only [absorb, ChoiceState.absorb, waitsForEvents, awaiting]
          cases chose <;> rfl
  | plans state =>
      have step : state.awaitingStep = true := waits
      simp only [absorb, PlanState.absorb, waitsForEvents, step]
      rfl

structure Frame.Passes (f : Frame) (taken : RunResult) (later : Frame) (outcome : Outcome)
    (seen : List Occurrence) : Prop where
  performs : ∀ o ∈ seen, o.isPerform = false
  waits : ∀ children, outcome = .yield children → later.result = taken
  done : ∀ r, outcome = .done r →
    (f.kind ≠ .module ∧ r = taken) ∨
    ∃ g stopped, f = .module g ∧ (polls seen).getLast? = some stopped ∧
      r = taken.leaving stopped g.activation.module.anonymous

namespace Frame.Passes

variable {f later : Frame} {taken : RunResult} {seen : List Occurrence}

private theorem of_done (solid : f.kind ≠ .module) (performs : ∀ o ∈ seen, o.isPerform = false) :
    f.Passes taken later (.done taken) seen := by
  refine ⟨performs, ?_, ?_⟩
  · intro children impossible
    cases impossible
  · intro r done
    cases done
    exact .inl ⟨solid, rfl⟩

private theorem of_yield (same : later.result = taken) (children : List Frame)
    (performs : ∀ o ∈ seen, o.isPerform = false) :
    f.Passes taken later (.yield children) seen := by
  refine ⟨performs, fun _ _ => same, ?_⟩
  intro r impossible
  cases impossible

private theorem of_failed (failure : Failure) (performs : ∀ o ∈ seen, o.isPerform = false) :
    f.Passes taken later (.failed failure) seen := by
  refine ⟨performs, ?_, ?_⟩
  · intro children impossible
    cases impossible
  · intro r impossible
    cases impossible

theorem after {outcome : Outcome} {before : List Occurrence}
    (passes : f.Passes taken later outcome seen) (performs : ∀ o ∈ before, o.isPerform = false)
    (solid : f.kind ≠ .module) : f.Passes taken later outcome (before ++ seen) := by
  refine ⟨?_, passes.waits, ?_⟩
  · intro o member
    rcases List.mem_append.mp member with first | second
    · exact performs o first
    · exact passes.performs o second
  · intro r done
    rcases passes.done r done with here | ⟨g, _, isModule, _⟩
    · exact .inl here
    · rw [isModule] at solid
      exact absurd rfl solid

end Frame.Passes

private theorem nothing_performed : ∀ o ∈ ([] : List Occurrence), o.isPerform = false :=
  fun _ member => absurd member List.not_mem_nil

namespace Setting

variable (S : Setting σ ω)

/-! ### Frames that gather results -/

private theorem fire_passes (g f : RuleFrame) {taken : RunResult} (same : f.result = taken)
    (options : List Instantiation) :
    (S.traced.fire f options).Logs fun left seen =>
      (Frame.rule g).Passes taken (.rule left.1) left.2 seen := by
  subst same
  cases options with
  | nil => exact Exec.logs_pure (.of_done FrameKind.noConfusion nothing_performed)
  | cons option rest =>
      refine Exec.Logs.bind (S.emit_quiet _ _ _ _ _) fun _ seen quiet => ?_
      refine Exec.logs_pure (.of_yield ?_ _ ?_)
      · rfl
      · rw [List.append_nil]
        exact fun o member => (quiet o member).perform

private theorem resumeRule_passes (g : RuleFrame) (previous : Option RunResult) :
    (S.traced.resumeRule g previous).Logs fun left seen =>
      (Frame.rule g).Passes ((Frame.rule g).taken previous) (.rule left.1) left.2 seen := by
  have evaluating : (S.traced.instantiate g.rule g.substitution).Only
      fun o => o.isPerform = false := by
    refine ((S.emit_quiet _ _ _ _ _).mono fun _ quiet => quiet.perform).bind fun _ => ?_
    refine (S.ask_only fun answer => rfl).bind fun answer => ?_
    cases answer <;> exact Exec.only_pure _
  have arranging (options : List Instantiation) :
      (arrange g.order options : Exec σ (List Occurrence) _).Only fun o => o.isPerform = false := by
    unfold arrange
    split
    · refine (shuffle_logs options).mono fun _ seen shuffled => ?_
      rw [shuffled.1]
      exact nothing_performed
    · exact Exec.only_pure _
  unfold resumeRule
  cases begun : g.pending with
  | none =>
      have same : g.result = (Frame.rule g).taken previous := by
        cases previous with
        | none => rfl
        | some r => simp only [Frame.taken, begun, Option.isSome_none, Bool.false_eq_true, if_false]
      refine Exec.Logs.bind evaluating fun found seen performs => ?_
      cases found with
      | error failure =>
          refine Exec.logs_pure (.of_failed failure ?_)
          rw [List.append_nil]
          exact performs
      | ok options =>
          refine Exec.Logs.bind (arranging options) fun arranged more alsoPerforms => ?_
          refine Exec.Logs.mono (S.fire_passes g g same arranged) fun left rest passes => ?_
          exact (passes.after alsoPerforms FrameKind.noConfusion).after performs
            FrameKind.noConfusion
  | some pending =>
      cases previous with
      | none => exact S.fire_passes g g rfl pending
      | some r =>
          have same : (Frame.rule g).taken (some r) = g.result.merge r := by
            simp only [Frame.taken, begun, Option.isSome_some, if_true]
          rw [same]
          dsimp only
          split
          · exact Exec.logs_pure (.of_done FrameKind.noConfusion nothing_performed)
          · exact S.fire_passes g _ rfl pending

private theorem comboFrame_passes (c : ComboFrame) (previous : Option RunResult) :
    (Frame.combo c).Passes ((Frame.combo c).taken previous) (.combo (c.resume previous).1)
      (c.resume previous).2 [] := by
  have next (d : ComboFrame) (actions : List Action) :
      (Frame.combo c).Passes d.result (.combo (d.next actions).1) (d.next actions).2 [] := by
    cases actions with
    | nil => exact .of_done FrameKind.noConfusion nothing_performed
    | cons action rest =>
        refine .of_yield ?_ _ nothing_performed
        rfl
  unfold ComboFrame.resume
  cases begun : c.pending with
  | none =>
      have same : (Frame.combo c).taken previous = c.result := by
        cases previous with
        | none => rfl
        | some r => simp only [Frame.taken, begun, Option.isSome_none, Bool.false_eq_true, if_false]
      rw [same]
      exact next c c.combo
  | some pending =>
      cases previous with
      | none => exact next c pending
      | some r =>
          have same : (Frame.combo c).taken (some r) = c.result.merge r := by
            simp only [Frame.taken, begun, Option.isSome_some, if_true]
          rw [same]
          dsimp only
          split
          · exact .of_done FrameKind.noConfusion nothing_performed
          · exact next { c with result := c.result.merge r } pending

private theorem resumeAction_passes {x : ActionFrame} (waiting : (Frame.action x).isPlain = false)
    (previous : Option RunResult) :
    (S.traced.resumeAction x previous).Logs fun left seen =>
      (Frame.action x).Passes ((Frame.action x).taken previous) (.action left.1) left.2 seen := by
  unfold resumeAction
  cases called : x.called with
  | some anonymous =>
      have same : (Frame.action x).taken previous = (previous.getD .start).ofCall anonymous := by
        simp only [Frame.taken, called]
      rw [same]
      exact Exec.logs_pure (.of_done FrameKind.noConfusion nothing_performed)
  | none =>
      have same : (Frame.action x).taken previous = .start := by
        simp only [Frame.taken, called]
      rw [same]
      cases action : x.action with
      | user action => rw [Frame.isPlain, called, action] at waiting; cases waiting
      | mental action => rw [Frame.isPlain, called, action] at waiting; cases waiting
      | call target params source =>
          dsimp only
          unfold expandCall
          split
          · exact Exec.logs_pure (.of_failed _ nothing_performed)
          · split
            · exact Exec.logs_pure (.of_failed _ nothing_performed)
            · refine Exec.Logs.bind (S.emit_quiet _ _ _ _ _) fun _ seen quiet => ?_
              refine Exec.logs_pure (.of_yield ?_ _ ?_)
              · rfl
              · rw [List.append_nil]
                exact fun o member => (quiet o member).perform

/-- What a frame that is no plain action makes of the result of its child. -/
theorem resumeWith_passes {f : Frame} (waiting : f.isPlain = false) (previous : Option RunResult) :
    (S.traced.resumeWith f previous).Logs fun left seen =>
      f.Passes (f.taken previous) left.1 left.2 seen := by
  cases f with
  | module g =>
      refine (S.resumeModule_logs g previous).bind fun left seen conducts => ?_
      refine Exec.logs_pure ?_
      rw [List.append_nil]
      refine ⟨conducts.performs, ?_, ?_⟩
      · intro children yields
        exact (conducts.waits children yields).1
      · intro r done
        obtain ⟨stopped, last, same⟩ := conducts.leaves r done
        exact .inr ⟨g, stopped, rfl, last, same⟩
  | rule g =>
      refine (S.resumeRule_passes g previous).bind fun left seen passes => ?_
      refine Exec.logs_pure ?_
      rw [List.append_nil]
      exact passes
  | combo c => exact Exec.logs_pure (comboFrame_passes c previous)
  | action x =>
      refine (S.resumeAction_passes waiting previous).bind fun left seen passes => ?_
      refine Exec.logs_pure ?_
      rw [List.append_nil]
      exact passes
  | hole => exact Exec.logs_pure (.of_done FrameKind.noConfusion nothing_performed)

/-! ### Plain actions -/

/-- What a plain action comes to, and whether the environment was asked for it. -/
inductive Deed : Action → Outcome → List Occurrence → Prop where
  | failed (action : Action) (failure : Failure) (seen : List Occurrence) :
      Deed action (.failed failure) seen
  | skipped {action : UserAction} {seen : List Occurrence}
      (performs : ∀ o ∈ seen, o.isPerform = false) : Deed (.user action) (.done .start) seen
  | performed {action : UserAction} {seen : List Occurrence}
      (performs : ∃ o ∈ seen, o.isPerform = true) : Deed (.user action) (.done .realAction) seen
  | minded {action : MentalAction} {seen : List Occurrence} {status : RunStatus}
      (asks : status = .running ∨ (status = .softStop ∧ action = .exit))
      (performs : ∀ o ∈ seen, o.isPerform = false) :
      Deed (.mental action) (.done { RunResult.action with status }) seen

private theorem applyEffects_silent (effects : List Effect) :
    (S.traced.applyEffects effects).Only Occurrence.Silent := by
  induction effects with
  | nil => exact Exec.only_pure _
  | cons effect rest ih =>
      cases effect with
      | insert belief =>
          refine (S.ask_only fun answer => ⟨rfl, rfl⟩).bind fun answer => ?_
          cases answer with
          | error fault => exact Exec.only_pure _
          | ok update => exact ih
      | delete belief =>
          refine (S.ask_only fun answer => ⟨rfl, rfl⟩).bind fun answer => ?_
          cases answer with
          | error fault => exact Exec.only_pure _
          | ok update => exact ih

private theorem carryOut_logs (action ground : UserAction) (before : List Occurrence) :
    (S.traced.carryOut ground).Logs fun outcome seen =>
      Deed (.user action) outcome (before ++ seen) := by
  have asked : (S.traced.ask (.perform ground)).Logs fun answer seen =>
      seen = [.exchange (.perform ground) answer] := S.ask_logs fun answer => rfl
  unfold carryOut
  split
  · refine asked.bind fun answer performed noted => ?_
    subst noted
    cases answer with
    | error fault => exact Exec.logs_pure (.failed _ _ _)
    | ok _ =>
        refine Exec.Logs.bind (S.applyEffects_silent ground.post) fun effects seen _ => ?_
        cases effects with
        | error fault => exact Exec.logs_pure (.failed _ _ _)
        | ok _ =>
            refine Exec.Logs.bind (S.emit_quiet _ _ _ _ _) fun _ more _ => ?_
            refine Exec.logs_pure (.performed ⟨.exchange (.perform ground) (.ok ()), ?_, rfl⟩)
            exact List.mem_append_right _ List.mem_cons_self
  · exact Exec.logs_pure (.failed _ _ _)

private theorem performUser_logs (action : UserAction) (substitution : Substitution) :
    (S.traced.performUser action substitution).Logs (Deed (.user action)) := by
  have bound : (S.traced.userBindings action substitution).Only fun o => o.isPerform = false := by
    unfold userBindings
    split
    · exact Exec.only_pure _
    · refine ((S.emit_quiet _ _ _ _ _).mono fun _ quiet => quiet.perform).bind fun _ => ?_
      refine (S.ask_only fun answer => rfl).bind fun answer => ?_
      cases answer <;> exact Exec.only_pure _
  unfold performUser
  refine Exec.Logs.bind bound fun found seen performs => ?_
  split
  · exact Exec.logs_pure (.failed _ _ _)
  · refine Exec.logs_pure (.skipped ?_)
    rw [List.append_nil]
    exact performs
  · exact S.carryOut_logs action _ seen

/-- A mental action that is not refused counts as an action, performs nothing in the environment,
and ends its module only if it is an exit. -/
def Minds (action : MentalAction) (answer : Except MentalFault RunResult) (seen : List Occurrence) :
    Prop :=
  (∀ o ∈ seen, o.isPerform = false) ∧ ∀ result, answer = .ok result →
    ∃ status, result = { RunResult.action with status } ∧
      (status = .running ∨ (status = .softStop ∧ action = .exit))

private theorem minds_action {action : MentalAction} {seen : List Occurrence}
    (performs : ∀ o ∈ seen, o.isPerform = false) : Minds action (.ok .action) seen := by
  refine ⟨performs, fun result same => ?_⟩
  cases same
  exact ⟨.running, rfl, .inl rfl⟩

/-- An update asks the knowledge base once and counts as an action unless it is refused. -/
theorem update_logs {β : Type} (action : MentalAction)
    {update : Exec σ (List Occurrence) (Except MentalFault β)}
    {next : Except MentalFault β → Exec σ (List Occurrence) (Except MentalFault RunResult)}
    (performs : update.Only fun o => o.isPerform = false)
    (refuses : ∀ fault, next (.error fault) = pure (.error fault))
    (accepts : ∀ value, next (.ok value) = pure (.ok .action)) :
    (update >>= next).Logs (Minds action) := by
  refine Exec.Logs.bind performs fun answer seen performs => ?_
  cases answer with
  | error fault =>
      rw [refuses]
      refine Exec.logs_pure ⟨?_, fun result same => by cases same⟩
      rw [List.append_nil]
      exact performs
  | ok value =>
      rw [accepts]
      refine Exec.logs_pure (minds_action ?_)
      rw [List.append_nil]
      exact performs

private theorem mentalResult_logs (action : MentalAction) (substitution : Substitution) :
    (S.traced.mentalResult (action.apply substitution)).Logs (Minds action) := by
  have asked (request : Request)
      (other : ∀ answer, (Occurrence.exchange request answer).isPerform = false) :
      (S.traced.ask request).Only fun o => o.isPerform = false := S.ask_only other
  cases action with
  | insert belief =>
      exact update_logs _ (asked (.insert (belief.apply substitution)) fun answer => rfl)
        (fun fault => rfl) (fun value => rfl)
  | delete belief =>
      exact update_logs _ (asked (.delete (belief.apply substitution)) fun answer => rfl)
        (fun fault => rfl) (fun value => rfl)
  | adopt goal =>
      exact update_logs _ (asked (.adopt (goal.apply substitution)) fun answer => rfl)
        (fun fault => rfl) (fun value => rfl)
  | drop goal =>
      exact update_logs _ (asked (.drop (goal.apply substitution)) fun answer => rfl)
        (fun fault => rfl) (fun value => rfl)
  | exit =>
      refine Exec.logs_pure ⟨nothing_performed, fun result same => ?_⟩
      cases same
      exact ⟨.softStop, rfl, .inr ⟨rfl, rfl⟩⟩
  | log term =>
      have noted : (S.traced.log (term.apply substitution)).Only fun o => o.isPerform = false :=
        S.note_only rfl
      refine Exec.Logs.bind noted fun _ seen performs => ?_
      refine Exec.logs_pure (minds_action ?_)
      rw [List.append_nil]
      exact performs

private theorem performMental_logs (action : MentalAction) (substitution : Substitution) :
    (S.traced.performMental (action.apply substitution)).Logs (Deed (.mental action)) := by
  unfold performMental
  split
  · refine (S.mentalResult_logs action substitution).bind fun answer seen performed => ?_
    obtain ⟨performs, results⟩ := performed
    cases answer with
    | error fault => exact Exec.logs_pure (.failed _ _ _)
    | ok result =>
        refine Exec.Logs.bind (S.emit_quiet _ _ _ _ _) fun _ more quiet => ?_
        obtain ⟨status, rfl, asks⟩ := results result rfl
        refine Exec.logs_pure (.minded asks ?_)
        rw [List.append_nil]
        intro o member
        rcases List.mem_append.mp member with first | second
        · exact performs o first
        · exact (quiet o second).perform
  · exact Exec.logs_pure (.failed _ _ _)

theorem resumeWith_deed {x : ActionFrame} (plain : (Frame.action x).isPlain = true)
    (previous : Option RunResult) :
    (S.traced.resumeWith (.action x) previous).Logs fun left seen => Deed x.action left.2 seen := by
  have called : x.called = none := by
    rw [Frame.isPlain, Bool.and_eq_true] at plain
    exact Option.isNone_iff_eq_none.mp plain.1
  have deed : (S.traced.resumeAction x previous).Logs fun left seen =>
      Deed x.action left.2 seen := by
    unfold resumeAction
    rw [called]
    cases planned : x.action with
    | user action =>
        refine (S.performUser_logs action x.substitution).bind fun outcome seen deed => ?_
        refine Exec.logs_pure ?_
        rw [List.append_nil]
        exact deed
    | mental action =>
        refine (S.performMental_logs action x.substitution).bind fun outcome seen deed => ?_
        refine Exec.logs_pure ?_
        rw [List.append_nil]
        exact deed
    | call target params source =>
        rw [Frame.isPlain, called, planned] at plain
        cases plain
  refine deed.bind fun left seen deed => ?_
  refine Exec.logs_pure ?_
  rw [List.append_nil]
  exact deed

end Setting

end CognitiveAgent
