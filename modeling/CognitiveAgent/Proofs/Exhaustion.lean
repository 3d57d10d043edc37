import CognitiveAgent.Proofs.ModuleTurns

/-!
Work that comes to an end. A frame comes to an end if, popped again and again, it leaves the stack
at last, whatever lies below it and whatever the world answers. A resumption that leaves behind
only frames that come to an end makes the frame itself one, so the frames of combos, rules and
modules come to an end if the actions in them do and the modules are left after every pass.
-/

set_option autoImplicit false

namespace CognitiveAgent

variable {σ ω : Type}

namespace Setting

variable (S : Setting σ ω)

def Reaches (first last : CallStack × Situation σ ω) : Prop :=
  ∃ n, (⟨S, first.1, first.2⟩ : History σ ω).after n = last

/-- Resumed with this outcome of its child, the frame leaves the stack at last. -/
def Ends (f : Frame) (previous : Option Completed) : Prop :=
  ∀ below situation, ∃ completed final,
    S.Reaches (⟨f :: below, previous⟩, situation) (⟨below, some completed⟩, final)

inductive Lapses : Frame → Outcome → Prop where
  | leaves {f : Frame} {outcome : Outcome} (final : ∃ result, outcome.result? = some result) :
      Lapses f outcome
  | idle {f : Frame} (ends : S.Ends f none) : Lapses f (.yield [])
  | push {f child : Frame} (holes : Nat) (first : S.Ends child none)
      (second : ∀ completed, S.Ends f (some completed)) :
      Lapses f (.yield (List.replicate holes .hole ++ [child]))

variable {S}

theorem Reaches.trans {first middle last : CallStack × Situation σ ω}
    (one : S.Reaches first middle) (other : S.Reaches middle last) : S.Reaches first last := by
  obtain ⟨m, rfl⟩ := one
  obtain ⟨n, rfl⟩ := other
  exact ⟨m + n, History.after_add _ m n⟩

private theorem reaches_holes (holes : Nat) (below : List Frame) (completed : Completed)
    (situation : Situation σ ω) :
    ∃ handed, S.Reaches (⟨List.replicate holes .hole ++ below, some completed⟩, situation)
      (⟨below, some handed⟩, situation) := by
  induction holes generalizing completed with
  | zero => exact ⟨completed, 0, rfl⟩
  | succ holes ih =>
      obtain ⟨outcome, resumed, final⟩ := S.resume_hole completed situation
      obtain ⟨handed, further⟩ := ih ⟨.hole, completed.result⟩
      refine ⟨handed, Reaches.trans ⟨1, ?_⟩ further⟩
      change S.pop ⟨.hole :: (List.replicate holes .hole ++ below), some completed⟩ situation = _
      rw [pop_cons, resumed]
      simp only [CallStack.settle_result final]
      rfl

private theorem ends_of_lapses {f : Frame} {previous : Option Completed}
    (lapses : (S.resume f previous).Returns fun left => S.Lapses left.1 left.2) :
    S.Ends f previous := by
  intro below situation
  have popped : S.Reaches (⟨f :: below, previous⟩, situation)
      (S.pop ⟨f :: below, previous⟩ situation) := ⟨1, rfl⟩
  have here := lapses situation
  rw [pop_cons] at popped
  generalize S.resume f previous situation = left at here popped
  obtain ⟨⟨later, outcome⟩, after⟩ := left
  cases here with
  | leaves final =>
      obtain ⟨result, final⟩ := final
      rw [CallStack.settle_result final] at popped
      exact ⟨_, _, popped⟩
  | idle ends =>
      obtain ⟨completed, final, further⟩ := ends below after
      exact ⟨completed, final, popped.trans further⟩
  | push holes first second =>
      -- The child comes first, the holes hand its outcome on, and then the frame itself goes on.
      rw [CallStack.settle_push] at popped
      obtain ⟨completed, middle, child⟩ :=
        first (List.replicate holes .hole ++ later :: below) after
      obtain ⟨handed, through⟩ := S.reaches_holes holes (later :: below) completed middle
      obtain ⟨completed, final, own⟩ := second handed below middle
      exact ⟨completed, final, ((popped.trans child).trans through).trans own⟩

private theorem ends_none {f : Frame}
    (lapses : (S.resumeWith f none).Returns fun left => S.Lapses left.1 left.2) : S.Ends f none :=
  ends_of_lapses lapses

/-- A failure passes through a frame, so only results of its child matter. -/
theorem ends_some {f : Frame}
    (lapses : ∀ r, (S.resumeWith f (some r)).Returns fun left => S.Lapses left.1 left.2)
    (completed : Completed) : S.Ends f (some completed) := by
  refine ends_of_lapses ?_
  obtain ⟨kind, result⟩ := completed
  cases result with
  | error failure => exact Exec.returns_pure (.leaves ⟨_, rfl⟩)
  | ok r => exact lapses r

private theorem ends_any {f : Frame}
    (lapses : ∀ r, (S.resumeWith f r).Returns fun left => S.Lapses left.1 left.2)
    (previous : Option Completed) : S.Ends f previous := by
  cases previous with
  | none => exact ends_none (lapses none)
  | some completed => exact ends_some (fun r => lapses (some r)) completed

/-! ### Actions, combos and rules -/

variable (S)

def EndsAction (action : Action) : Prop :=
  ∀ (x : ActionFrame) (previous : Option Completed), x.action = action → S.Ends (.action x) previous

variable {S}

private theorem ends_called {x : ActionFrame} {anonymous : Bool}
    (called : x.called = some anonymous)
    (previous : Option Completed) : S.Ends (.action x) previous := by
  refine ends_any (fun r => ?_) previous
  simp only [resumeWith, resumeAction, called]
  exact Exec.returns_pure (.leaves ⟨_, rfl⟩)

theorem endsAction_of_plain {action : Action} (plain : action.isCall = false) :
    S.EndsAction action := by
  intro x previous same
  cases called : x.called with
  | some anonymous => exact ends_called called previous
  | none =>
      refine ends_any (fun r => Exec.Returns.map ?_) previous
      unfold resumeAction
      rw [called, same]
      cases action with
      | call target params source => cases plain
      | user action => exact ((S.performUser_returns _ _).mono fun _ final => .leaves final).map
      | mental action => exact ((S.performMental_returns _).mono fun _ final => .leaves final).map

theorem endsAction_of_callee {target : CallTarget} {params : List Term} {source : Option Location}
    (ends : ∀ m, S.callee target = .ok m → ∀ bindings order focus,
      S.Ends (.module (.start m bindings (some order) focus)) none) :
    S.EndsAction (.call target params source) := by
  have expands (x : ActionFrame) :
      (S.expandCall x target params source).Returns fun left =>
        S.Lapses (.action left.1) left.2 := by
    unfold expandCall
    split
    next => exact Exec.returns_pure (.leaves ⟨_, rfl⟩)
    next m found =>
      split
      next => exact Exec.returns_pure (.leaves ⟨_, rfl⟩)
      next bindings _ =>
        refine (Exec.returns_any _).bind fun _ _ => Exec.returns_pure ?_
        exact .push 0 (ends m found _ _ _) (ends_called rfl <| some ·)
  intro x previous same
  cases called : x.called with
  | some anonymous => exact ends_called called previous
  | none =>
      refine ends_any (fun r => Exec.Returns.map ?_) previous
      unfold resumeAction
      rw [called, same]
      exact expands x

private theorem next_lapses {actions : List Action} (ends : ∀ action ∈ actions, S.EndsAction action)
    (c : ComboFrame) : S.Lapses (.combo (c.next actions).1) (c.next actions).2 := by
  induction actions generalizing c with
  | nil => exact .leaves ⟨_, rfl⟩
  | cons action rest ih =>
      have others : ∀ other ∈ rest, S.EndsAction other :=
        fun other later => ends other (List.mem_cons_of_mem _ later)
      have goesOn (f : ComboFrame) (pending : f.pending = some rest) (completed : Completed) :
          S.Ends (.combo f) (some completed) := by
        refine ends_some (fun r => Exec.returns_pure ?_) completed
        simp only [pending]
        split
        · exact .leaves ⟨_, rfl⟩
        · exact ih others _
      exact .push 0 (ends action List.mem_cons_self _ none rfl) (goesOn _ rfl)

private theorem ends_combo {c : ComboFrame} (fresh : c.pending = none)
    (ends : ∀ action ∈ c.combo, S.EndsAction action) : S.Ends (.combo c) none := by
  refine ends_none (Exec.returns_pure ?_)
  simp only [fresh]
  exact next_lapses ends c

private theorem fire_lapses {g : RuleFrame} (ends : ∀ action ∈ g.rule.combo, S.EndsAction action)
    (options : List Instantiation) :
    (S.fire g options).Returns fun left => S.Lapses (.rule left.1) left.2 := by
  induction options generalizing g with
  | nil => exact Exec.returns_pure (.leaves ⟨_, rfl⟩)
  | cons option rest ih =>
      refine (Exec.returns_any _).bind fun _ _ => Exec.returns_pure ?_
      refine .push 0 (ends_combo rfl ends) (ends_some fun r => Exec.Returns.map ?_)
      dsimp only [resumeRule]
      split
      · exact Exec.returns_pure (.leaves ⟨_, rfl⟩)
      · exact ih ends

private theorem ends_rule {g : RuleFrame} (fresh : g.pending = none)
    (ends : ∀ action ∈ g.rule.combo, S.EndsAction action) : S.Ends (.rule g) none := by
  refine ends_none (Exec.Returns.map ?_)
  simp only [resumeRule, fresh]
  refine (Exec.returns_any _).bind fun found _ => ?_
  cases found with
  | error failure => exact Exec.returns_pure (.leaves ⟨_, rfl⟩)
  | ok options => exact (Exec.returns_any _).bind fun arranged _ => fire_lapses ends arranged

/-! ### Modules -/

end Setting

private theorem Activation.Judges.of_always {a : Activation} {holds : Bool} {seen : List Occurrence}
    (judges : a.Judges holds seen) (always : a.module.exit = .always) : holds = true := by
  unfold Judges at judges
  rw [always] at judges
  exact judges.1

private theorem Activation.Tells.of_always {now : Activation} {deeds : List ChoiceDeed}
    {seen : List Occurrence} (tells : now.Tells deeds seen) (always : now.module.exit = .always)
    {performed holds : Bool} (member : .judges performed holds ∈ deeds) : holds = true := by
  induction tells with
  | nil => cases member
  | cons shows _ ih =>
      rcases List.mem_cons.mp member with rfl | later
      · cases shows with
        | judges judges => exact judges.of_always always
      · exact ih later

namespace Setting

variable {S : Setting σ ω} {now left : Activation} {outcome : Outcome} {seen : List Occurrence}

/-- The pass goes on with its next rule, or the module is left. -/
theorem PassTurn.lapses {state : PassState} {closes : Bool} {later : PassState}
    (turn : S.PassTurn now state closes (left, later, outcome) seen)
    (always : now.module.exit = .always)
    (tries : ∀ rule index rest, Queues now state ((rule, index) :: rest) →
      S.Lapses (.module ⟨now, .passes ⟨rest, true, .rule⟩⟩) (.yield [now.ruleFrame rule index])) :
    S.Lapses (.module ⟨left, .passes later⟩) outcome := by
  cases turn with
  | stops cause departs => exact .leaves (Outcome.exists_result departs.ends)
  | tries running goesOn next => exact tries _ _ _ next
  | exits running ends judges departs => exact .leaves (Outcome.exists_result departs.ends)
  | separates running ends judges => cases judges.of_always always
  | reopens running ends judges => cases judges.of_always always
  | idles running goesOn nothing judges => cases judges.of_always always
  | recloses running closed ruleless judges => cases judges.of_always always

theorem Settles.exists_result {deeds : List ChoiceDeed} {next : ChoiceAwaiting}
    (settles : S.Settles now deeds outcome next) (tells : now.Tells deeds seen)
    (always : now.module.exit = .always) : ∃ result, outcome.result? = some result := by
  cases settles with
  | stops ends => exact Outcome.exists_result ends
  | exits ends => exact Outcome.exists_result ends
  | goesOn offers =>
      cases tells.of_always always (.tail _ (.tail _ (.head _)))

/-- The learner is asked once, and the module is left after its choice and the event pass. -/
theorem ChoiceMove.lapses {stage : ChoiceStage} {deeds : List ChoiceDeed} {later : ChoiceState}
    (move : S.ChoiceMove now stage deeds outcome later.awaiting) (tells : now.Tells deeds seen)
    (always : now.module.exit = .always)
    (chooses : stage = .idle ∨ stage = .passed false → ∀ rule ∈ now.module.rules,
      ∀ substitution focus, S.Lapses (.module ⟨left, .choices ⟨.combo⟩⟩)
        (.yield (now.comboFrames rule.combo substitution focus)))
    (separates : stage = .acted → ∀ frames, S.eventPass now = some frames →
      S.Lapses (.module ⟨left, .choices ⟨.eventPass true⟩⟩) (.yield frames)) :
    S.Lapses (.module ⟨left, .choices later⟩) outcome := by
  obtain ⟨awaiting⟩ := later
  cases move with
  | quits ends => exact .leaves (Outcome.exists_result ends)
  | separates events => exact separates rfl _ events
  | settles noEvents settles =>
      cases tells with
      | cons _ rest => exact .leaves (settles.exists_result rest always)
  | settlesLate settles => exact .leaves (settles.exists_result tells always)
  | stops free ends => exact .leaves (Outcome.exists_result ends)
  | offers free offers =>
      cases offers with
      | balks => exact .leaves ⟨_, rfl⟩
      | exits ends => exact .leaves (Outcome.exists_result ends)
      | misses offered missing => exact .leaves ⟨_, rfl⟩
      | idles noEvents => cases tells.of_always always (.tail _ (.tail _ (.head _)))
      | separates events => cases tells.of_always always (.tail _ (.tail _ (.head _)))
      | chooses found =>
          obtain ⟨rule, member, same⟩ :=
            tells.combo (List.mem_cons_of_mem _ List.mem_cons_self) (List.mem_of_getElem? found)
          rw [same]
          exact chooses free rule member _ _

/-- A plan is asked for once, and the module is left when it is used up. -/
theorem lapses_of_planTurn {state later : PlanState}
    (turn : now.PlanTurn state (left, later, outcome) seen) (always : now.module.exit = .always)
    (steps : ∀ step rest, state.plan = some (step :: rest) →
      S.Lapses (.module ⟨now, .plans ⟨some rest, state.plannedBefore, true⟩⟩)
        (.yield (now.stepFrames step)))
    (begins : state.plannedBefore = false → ∀ plan,
      .exchange (.plan now.module now.substitution) (.ok plan) ∈ seen →
      S.Lapses (.module ⟨now, .plans (.begun plan)⟩) (.yield (now.planFrames plan))) :
    S.Lapses (.module ⟨left, .plans later⟩) outcome := by
  cases turn with
  | stops cause leaves => exact .leaves (Outcome.exists_result leaves.departs.ends)
  | exits running nothing planned judges leaves =>
    exact .leaves (Outcome.exists_result leaves.departs.ends)
  | replans running nothing planned judges => cases judges.of_always always
  | fails => exact .leaves ⟨_, rfl⟩
  | begins running nothing unplanned upkeep => exact begins unplanned _ (by simp)
  | steps running next upkeep =>
      obtain ⟨rest, whole, rfl⟩ := PlanState.exists_of_take? next
      exact steps _ rest whole

variable {a : Activation}

private theorem resumeWith_lapses {g : ModuleFrame} {r : Option RunResult}
    (turns : ∀ left seen, (S.present g).Keeps left.1.activation → (∀ o ∈ seen, o.Given S) →
      S.Pursues (S.present g) r g.strategy left seen → S.Lapses (.module left.1) left.2) :
    (S.resumeWith (.module g) r).Returns fun left => S.Lapses left.1 left.2 := by
  refine Exec.Returns.map ((S.resumeModule_turn g r).mono fun left turn => ?_)
  rcases turn with ⟨failure, failed⟩ | ⟨keeps, seen, given, pursues⟩
  · rw [failed]
    exact .leaves ⟨_, rfl⟩
  · exact turns left seen keeps given pursues

private theorem present_of_prepared (prepared : a.prepared = true) (strategy : StrategyState) :
    S.present ⟨a, strategy⟩ = a := if_pos prepared

variable (S)

/-- The module is left after every pass, and all actions of its rules come to an end. -/
structure Concludes (m : Module) : Prop where
  always : m.exit = .always
  actions : ∀ rule ∈ m.rules, ∀ action ∈ rule.combo, S.EndsAction action

def PlansPlainly : Prop :=
  ∀ m s world plan, (S.respond (.plan m s) world).1 = .ok (some plan) →
    ∀ step ∈ plan, step.action.isCall = false

variable {S}

private theorem Concludes.rule_ends (concludes : S.Concludes a.module) {rule : Rule}
    (member : rule ∈ a.module.rules) (index : Nat) : S.Ends (a.ruleFrame rule index) none :=
  ends_rule rfl (concludes.actions rule member)

private theorem Concludes.pass_step (concludes : S.Concludes a.module)
    (prepared : a.prepared = true)
    {queue : List (Rule × Nat)} (own : ∀ entry ∈ queue, entry.1 ∈ a.module.rules)
    (goesOn : ∀ now entry rest, a.Keeps now → queue = entry :: rest →
      ∀ completed, S.Ends (.module ⟨now, .passes ⟨rest, true, .rule⟩⟩) (some completed))
    (completed : Completed) :
    S.Ends (.module ⟨a, .passes ⟨queue, true, .rule⟩⟩) (some completed) := by
  refine ends_some (fun r => resumeWith_lapses fun left seen keeps given pursues => ?_) completed
  rw [present_of_prepared prepared] at pursues
  have kept := PassState.absorb_keeps ⟨queue, true, .rule⟩ a (some r)
  cases pursues with
  | passes turn =>
      generalize PassState.absorb ⟨queue, true, .rule⟩ a (some r) = heard at kept turn
      rw [← kept.module] at concludes own
      refine turn.lapses concludes.always ?_
      rintro rule index rest (⟨_, same⟩ | ⟨impossible, _⟩)
      · change queue = (rule, index) :: rest at same
        have member : (rule, index) ∈ queue := same ▸ List.mem_cons_self
        exact .push 0 (concludes.rule_ends (own _ member) index) (goesOn _ _ _ kept same)
      · cases impossible

private theorem Concludes.pass_ends (concludes : S.Concludes a.module)
    (prepared : a.prepared = true)
    {queue : List (Rule × Nat)} (own : ∀ entry ∈ queue, entry.1 ∈ a.module.rules)
    (completed : Completed) :
    S.Ends (.module ⟨a, .passes ⟨queue, true, .rule⟩⟩) (some completed) := by
  -- Each turn takes a rule off the queue.
  induction queue generalizing a completed with
  | nil =>
      refine concludes.pass_step prepared own ?_ completed
      intro now entry rest _ impossible
      cases impossible
  | cons first queue ih =>
      refine concludes.pass_step prepared own ?_ completed
      intro now entry rest kept same
      cases same
      refine ih (kept.module ▸ concludes) (kept.prepared prepared) ?_
      intro other later
      rw [kept.module]
      exact own other (List.mem_cons_of_mem _ later)

private theorem Concludes.settling_ends (concludes : S.Concludes a.module)
    (prepared : a.prepared = true) (completed : Completed) :
    S.Ends (.module ⟨a, .choices ⟨.eventPass true⟩⟩) (some completed) := by
  refine ends_some (fun r => resumeWith_lapses fun left seen keeps given pursues => ?_) completed
  rw [present_of_prepared prepared] at pursues
  cases pursues with
  | choices tells move =>
      refine move.lapses tells concludes.always ?_ ?_
      · rintro (impossible | impossible) <;> cases impossible
      · intro impossible
        cases impossible

private theorem Concludes.choice_ends (concludes : S.Concludes a.module)
    (prepared : a.prepared = true)
    (events : a.isMain = true → ∀ e, S.program.event = some e → ∀ order,
      S.Ends (.module (.start e .empty (some order) none)) none)
    (completed : Completed) : S.Ends (.module ⟨a, .choices ⟨.combo⟩⟩) (some completed) := by
  refine ends_some (fun r => resumeWith_lapses fun left seen keeps given pursues => ?_) completed
  rw [present_of_prepared prepared] at pursues keeps
  cases pursues with
  | choices tells move =>
      refine move.lapses tells concludes.always ?_ ?_
      · rintro (impossible | impossible) <;> cases impossible
      · intro _ frames pass
        obtain ⟨main, event, present, rfl⟩ := exists_event pass
        refine .push 3 (events main event present _) (Concludes.settling_ends ?_ ?_)
        · rw [keeps.module]
          exact concludes
        · exact keeps.prepared prepared

private theorem step_ends {step : PlanStep} (plain : step.action.isCall = false) :
    S.Ends (.combo (a.stepCombo step)) none := by
  refine ends_combo rfl fun action member => ?_
  rw [List.mem_singleton.mp member]
  exact endsAction_of_plain plain

private theorem Concludes.plan_step (concludes : S.Concludes a.module)
    (prepared : a.prepared = true) {plan : Plan} (plain : ∀ step ∈ plan, step.action.isCall = false)
    (goesOn : ∀ now step rest, a.Keeps now → plan = step :: rest →
      ∀ completed, S.Ends (.module ⟨now, .plans ⟨some rest, true, true⟩⟩) (some completed))
    (completed : Completed) :
    S.Ends (.module ⟨a, .plans ⟨some plan, true, true⟩⟩) (some completed) := by
  refine ends_some (fun r => resumeWith_lapses fun left seen keeps given pursues => ?_) completed
  rw [present_of_prepared prepared] at pursues
  have kept : a.Keeps (a.absorb r) := .absorb a r
  cases pursues with
  | plans turn =>
      refine lapses_of_planTurn turn concludes.always ?_ ?_
      · intro step rest same
        have whole : plan = step :: rest := by
          change (if r.performedAction then some plan else none) = some (step :: rest) at same
          split at same
          · exact Option.some.inj same
          · cases same
        have member : step ∈ plan := whole ▸ List.mem_cons_self
        exact .push 1 (step_ends (plain step member)) (goesOn _ _ _ kept whole)
      · intro impossible
        cases impossible

private theorem Concludes.plan_ends (concludes : S.Concludes a.module)
    (prepared : a.prepared = true)
    {plan : Plan} (plain : ∀ step ∈ plan, step.action.isCall = false) (completed : Completed) :
    S.Ends (.module ⟨a, .plans ⟨some plan, true, true⟩⟩) (some completed) := by
  -- Each turn takes a step off the plan.
  induction plan generalizing a completed with
  | nil =>
      refine concludes.plan_step prepared plain ?_ completed
      intro now step rest _ impossible
      cases impossible
  | cons first plan ih =>
      refine concludes.plan_step prepared plain ?_ completed
      intro now step rest kept same
      cases same
      exact ih (kept.module ▸ concludes) (kept.prepared prepared)
        fun other later => plain other (List.mem_cons_of_mem _ later)

private theorem Concludes.spent_ends (concludes : S.Concludes a.module)
    (prepared : a.prepared = true) {plan : Option Plan} (spent : plan.getD [] = []) :
    S.Ends (.module ⟨a, .plans ⟨plan, true, false⟩⟩) none := by
  refine ends_none (resumeWith_lapses fun left seen keeps given pursues => ?_)
  rw [present_of_prepared prepared] at pursues
  cases pursues with
  | plans turn =>
      refine lapses_of_planTurn turn concludes.always ?_ ?_
      · intro step rest same
        change plan = some (step :: rest) at same
        rw [same] at spent
        cases spent
      · intro impossible
        cases impossible

private theorem Concludes.begun_lapses (concludes : S.Concludes a.module)
    (prepared : a.prepared = true)
    {plan : Option Plan} (plain : ∀ steps, plan = some steps → ∀ step ∈ steps,
      step.action.isCall = false) :
    S.Lapses (.module ⟨a, .plans (.begun plan)⟩) (.yield (a.planFrames plan)) := by
  match plan with
  | none => exact .idle (concludes.spent_ends prepared rfl)
  | some [] => exact .idle (concludes.spent_ends prepared rfl)
  | some (step :: rest) =>
      have plain := plain _ rfl
      refine .push 1 (step_ends (plain step List.mem_cons_self)) ?_
      exact concludes.plan_ends prepared fun other later =>
        plain other (List.mem_cons_of_mem _ later)

/-- The first turn of a module opens a pass, asks the learner or asks for a plan. -/
theorem Concludes.first_lapses {strategy : Strategy} {left : ModuleFrame × Outcome}
    (concludes : S.Concludes a.module) (prepared : a.prepared = true) (plain : S.PlansPlainly)
    (events : a.isMain = true → ∀ e, S.program.event = some e → ∀ order,
      S.Ends (.module (.start e .empty (some order) none)) none)
    (keeps : a.Keeps left.1.activation) (given : ∀ o ∈ seen, o.Given S)
    (pursues : S.Pursues a none (.start strategy) left seen) :
    S.Lapses (.module left.1) left.2 := by
  cases strategy with
  | linear =>
      cases pursues with
      | passes turn =>
          refine turn.lapses concludes.always ?_
          rintro rule index rest (⟨impossible, _⟩ | ⟨_, arranges⟩)
          · cases impossible
          · have own : ∀ entry ∈ (rule, index) :: rest, entry.1 ∈ a.module.rules :=
              fun entry member => List.fst_mem_of_mem_zipIdx (arranges.1.subset member)
            refine .push 0 (concludes.rule_ends (own _ List.mem_cons_self) index) ?_
            exact concludes.pass_ends prepared
              fun entry later => own entry (List.mem_cons_of_mem _ later)
  | adaptive =>
      cases pursues with
      | choices tells move =>
          refine move.lapses tells concludes.always ?_ ?_
          · intro _ rule member substitution focus
            have own := concludes.actions rule member
            refine .push 1 (ends_combo rfl own)
              (Concludes.choice_ends ?_ (keeps.prepared prepared) ?_)
            · rw [keeps.module]
              exact concludes
            · rw [keeps.isMain]
              exact events
          · intro impossible
            cases impossible
  | planning =>
      cases pursues with
      | plans turn =>
          refine lapses_of_planTurn turn concludes.always ?_ ?_
          · intro step rest impossible
            cases impossible
          · intro _ plan asked
            obtain ⟨world, answered⟩ := given _ asked
            refine concludes.begun_lapses prepared ?_
            intro steps same
            exact plain _ _ world steps (same ▸ answered)

theorem Concludes.module_ends {g : ModuleFrame} (fresh : g.Fresh)
    (concludes : S.Concludes g.activation.module) (plain : S.PlansPlainly)
    (events : g.activation.isMain = true → ∀ e, S.program.event = some e → ∀ order,
      S.Ends (.module (.start e .empty (some order) none)) none) :
    S.Ends (.module g) none := by
  have start : S.present g = S.entered g.activation ∧
      g.strategy = .start g.activation.module.strategy := by
    cases fresh <;> exact ⟨rfl, rfl⟩
  refine ends_none (resumeWith_lapses fun left seen keeps given pursues => ?_)
  rw [start.1] at pursues keeps
  rw [start.2] at pursues
  exact Concludes.first_lapses (a := S.entered g.activation) concludes rfl plain events keeps given
    pursues

end Setting

end CognitiveAgent
