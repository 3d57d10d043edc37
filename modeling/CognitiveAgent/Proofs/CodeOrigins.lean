import CognitiveAgent.Proofs.InnerModules
import CognitiveAgent.Proofs.ModuleTurns

/-!
Where the code on a stack comes from. What a frame runs is written out in the module, the rule or
the action that it was begun with, in a registered module or in a plan. So a condition that holds
of all modules written out there goes on to hold of a frame that is resumed, and of the frames that
it pushes.
-/

set_option autoImplicit false

namespace CognitiveAgent

variable {σ ω : Type} {holds : Module → Prop}

def StrategyState.code : StrategyState → List Module
  | .passes state => Rule.innerAll (state.queue.map Prod.fst)
  | .choices _ => []
  | .plans state => Action.innerAll ((state.plan.getD []).map PlanStep.action)

namespace Frame

def code : Frame → List Module
  | .module g => g.activation.module.parts ++ g.strategy.code
  | .rule g => g.rule.inner
  | .combo c => Action.innerAll c.combo ++ Action.innerAll (c.pending.getD [])
  | .action x => x.action.inner
  | .hole => []

def Carries (holds : Module → Prop) (f : Frame) : Prop := ∀ m ∈ f.code, holds m

end Frame

private theorem StrategyState.code_start (strategy : Strategy) : (start strategy).code = [] := by
  cases strategy <;> rfl

theorem Frame.carries_fresh {f : ModuleFrame} (fresh : f.Fresh)
    (parts : ∀ part ∈ f.activation.module.parts, holds part) : (Frame.module f).Carries holds := by
  have nothing : f.strategy.code = [] := by
    cases fresh <;> exact StrategyState.code_start _
  intro part member
  rw [code, nothing, List.append_nil] at member
  exact parts part member

/-- Rules and actions keep what they were begun with. -/
theorem Frame.code_origin {f : Frame} (kind : f.kind = .rule ∨ f.kind = .action) :
    f.origin.code = f.code := by
  cases f with
  | rule g | action x => rfl
  | module g | combo c | hole => rcases kind with impossible | impossible <;> cases impossible

/-- The condition holds of all modules that a program or a plan can bring onto a stack. -/
structure Setting.Supplies (S : Setting σ ω) (holds : Module → Prop) : Prop where
  registered : ∀ m ∈ S.program.registered, ∀ part ∈ m.parts, holds part
  planned : ∀ m s world plan, (S.respond (.plan m s) world).1 = .ok (some plan) →
    ∀ step ∈ plan, ∀ part ∈ step.action.inner, holds part

def Frame.GoesOnAs (keeps : Frame → Prop) (left : Frame × Outcome) : Prop :=
  ∀ children, left.2 = .yield children → keeps left.1 ∧ ∀ child ∈ children, keeps child

theorem Frame.GoesOnAs.of_result {keeps : Frame → Prop} {f : Frame} {outcome : Outcome}
    (final : ∃ result, outcome.result? = some result) : GoesOnAs keeps (f, outcome) := by
  intro children yields
  obtain ⟨result, final⟩ := final
  change outcome = .yield children at yields
  rw [yields] at final
  cases final

namespace Setting

variable {S : Setting σ ω} {a : Activation}

theorem Supplies.events (supplies : S.Supplies holds) {frames : List Frame}
    (pass : S.eventPass a = some frames) : ∀ f ∈ frames, f.Carries holds := by
  obtain ⟨_, event, plays, rfl⟩ := exists_event pass
  have parts := supplies.registered event (Program.mem_registered_of_event plays)
  intro f member
  simp only [List.mem_cons, List.not_mem_nil, or_false] at member
  rcases member with rfl | rfl | rfl | rfl
  · intro m impossible; cases impossible
  · intro m impossible; cases impossible
  · intro m impossible; cases impossible
  · exact Frame.carries_fresh (.start _ _ _ _) parts

private theorem carries_rule {rule : Rule} (inner : ∀ m ∈ rule.inner, holds m) (index : Nat) :
    ∀ f ∈ [a.ruleFrame rule index], f.Carries holds := by
  intro f member
  rw [List.mem_singleton.mp member]
  exact inner

private theorem carries_combo {combo : List Action} (inner : ∀ m ∈ Action.innerAll combo, holds m)
    (s : Substitution) (focus : Option Term) :
    ∀ f ∈ a.comboFrames combo s focus, f.Carries holds := by
  intro f member m inside
  simp only [Activation.comboFrames, List.mem_cons, List.not_mem_nil, or_false] at member
  rcases member with rfl | rfl
  · cases inside
  · simp only [Frame.code, Option.getD_none, Action.innerAll, List.append_nil] at inside
    exact inner m inside

/-! ### Combos, rules and actions -/

private theorem next_carries {c : ComboFrame} {actions : List Action}
    (combo : ∀ m ∈ Action.innerAll c.combo, holds m)
    (pending : ∀ m ∈ Action.innerAll actions, holds m) :
    Frame.GoesOnAs (Frame.Carries holds) (.combo (c.next actions).1, (c.next actions).2) := by
  cases actions with
  | nil => exact .of_result ⟨_, rfl⟩
  | cons action rest =>
      intro children yields
      cases yields
      rw [Action.innerAll, List.forall_mem_append] at pending
      refine ⟨List.forall_mem_append.mpr ⟨combo, pending.2⟩, fun child member => ?_⟩
      rw [List.mem_singleton.mp member]
      exact pending.1

private theorem resumeCombo_carries {c : ComboFrame} (carries : (Frame.combo c).Carries holds)
    (previous : Option RunResult) :
    Frame.GoesOnAs (Frame.Carries holds) (.combo (c.resume previous).1, (c.resume previous).2) := by
  obtain ⟨combo, queued⟩ := List.forall_mem_append.mp carries
  unfold ComboFrame.resume
  split
  · exact next_carries combo combo
  · rename_i pending
    rw [pending] at queued
    exact next_carries combo queued
  · rename_i pending
    rw [pending] at queued
    dsimp only
    split
    · exact .of_result ⟨_, rfl⟩
    · exact next_carries combo queued

private theorem callee_carries {x : ActionFrame} {target : CallTarget} {params : List Term}
    {source : Option Location} {m : Module} (supplies : S.Supplies holds)
    (carries : (Frame.action x).Carries holds) (isCall : x.action = .call target params source)
    (found : S.callee target = .ok m) : ∀ part ∈ m.parts, holds part := by
  cases target with
  | named name =>
      cases known : S.program.module? name with
      | none => simp [callee, known] at found
      | some other =>
          simp only [callee, known, Except.ok.injEq] at found
          subst found
          exact supplies.registered other (Program.mem_registered_of_module? known)
  | inPlace body =>
      cases found
      intro part member
      refine carries part ?_
      rw [Frame.code, isCall]
      exact member

/-- What a rule or an action pushes comes from its own text, or is a module that it calls. -/
theorem Proper.carries {f : Frame} {outcome : Outcome} (supplies : S.Supplies holds)
    (carries : f.Carries holds) (kind : f.kind = .rule ∨ f.kind = .action)
    (proper : S.Proper f outcome) : Frame.GoesOnAs (Frame.Carries holds) (f, outcome) := by
  cases proper with
  | done => exact .of_result ⟨_, rfl⟩
  | failed => exact .of_result ⟨_, rfl⟩
  | idle => rcases kind with impossible | impossible <;> cases impossible
  | push awaits =>
      rintro _ ⟨⟩
      refine ⟨carries, List.forall_mem_append.mpr ⟨?_, List.forall_mem_singleton.mpr ?_⟩⟩
      · intro child hole
        rw [List.eq_of_mem_replicate hole]
        exact List.forall_mem_nil _
      · cases awaits with
        | module isCall found =>
            refine Frame.carries_fresh (.start _ _ _ _) ?_
            exact callee_carries supplies carries isCall found
        | @combo g option _ _ =>
            intro m member
            simp only [Frame.code, Option.getD_none, Action.innerAll, List.append_nil,
              ← Rule.inner_eq] at member
            exact carries m member
        | action | rule | ownCombo | events =>
            rcases kind with impossible | impossible <;> cases impossible

/-! ### Modules -/

theorem Arranges.carries {queue : List (Rule × Nat)} (arranges : a.Arranges queue)
    (parts : ∀ part ∈ a.module.parts, holds part) :
    ∀ m ∈ Rule.innerAll (queue.map Prod.fst), holds m := by
  intro m member
  obtain ⟨rule, queued, inside⟩ := Rule.mem_innerAll.mp member
  obtain ⟨entry, held, rfl⟩ := List.mem_map.mp queued
  have own := List.fst_mem_of_mem_zipIdx (arranges.1.subset held)
  refine parts m (List.mem_cons_of_mem _ ?_)
  rw [Module.inner_eq]
  exact Rule.mem_innerAll.mpr ⟨entry.1, own, inside⟩

private theorem tries_carries {rule : Rule} {index : Nat} {rest : List (Rule × Nat)}
    (queued : ∀ m ∈ Rule.innerAll (((rule, index) :: rest).map Prod.fst), holds m) :
    (∀ m ∈ (StrategyState.passes ⟨rest, true, .rule⟩).code, holds m) ∧
      ∀ child ∈ [a.ruleFrame rule index], child.Carries holds := by
  rw [List.map_cons, Rule.innerAll, List.forall_mem_append] at queued
  exact ⟨queued.2, carries_rule queued.1 index⟩

theorem PassTurn.carries {state later : PassState} {closes : Bool} {left : Activation}
    {outcome : Outcome} {seen : List Occurrence} (supplies : S.Supplies holds)
    (parts : ∀ part ∈ a.module.parts, holds part)
    (queued : ∀ m ∈ (StrategyState.passes state).code, holds m)
    (turn : S.PassTurn a state closes (left, later, outcome) seen) {children : List Frame}
    (yields : outcome = .yield children) :
    (∀ m ∈ (StrategyState.passes later).code, holds m) ∧
      ∀ child ∈ children, child.Carries holds := by
  cases turn with
  | stops cause departs => exact absurd yields (departs.ends children)
  | exits running ends judges departs => exact absurd yields (departs.ends children)
  | tries running goesOn next =>
      cases yields
      refine tries_carries ?_
      rcases next with ⟨_, same⟩ | ⟨_, arranges⟩
      · rw [← same]
        exact queued
      · exact Arranges.carries arranges parts
  | separates running ends judges quiet events =>
      cases yields
      exact ⟨List.forall_mem_nil _, supplies.events events⟩
  | reopens running ends judges quiet noEvents arranges =>
      cases yields
      exact tries_carries (Arranges.carries arranges parts)
  | idles =>
      cases yields
      exact ⟨List.forall_mem_nil _, List.forall_mem_nil _⟩
  | @recloses _ _ _ _ ended running closed ruleless judges quiet ends =>
      obtain ⟨now, state, result⟩ := ended
      rcases ends with ⟨_, outcome, same, departs⟩ | ⟨_, _, _, ⟨frames, events, same⟩ | ⟨_, same⟩⟩
      · cases same
        exact absurd yields (departs.ends children)
      · cases same
        cases yields
        exact ⟨List.forall_mem_nil _, supplies.events events⟩
      · cases same
        cases yields
        exact ⟨List.forall_mem_nil _, List.forall_mem_nil _⟩

/-- What a module that follows a learner pushes: nothing, the event module, or the combo of one of
its rules. -/
def Draws (S : Setting σ ω) (a : Activation) (children : List Frame) : Prop :=
  children = [] ∨ S.eventPass a = some children ∨
    ∃ rule ∈ a.module.rules, ∃ s focus, children = a.comboFrames rule.combo s focus

theorem Offers.draws {deeds : List ChoiceDeed} {next : ChoiceAwaiting} {outcome : Outcome}
    (offers : S.Offers a deeds outcome next)
    (offered : ∀ candidates, .surveys candidates ∈ deeds → ∀ choice ∈ candidates,
      ∃ rule ∈ a.module.rules, choice.combo = rule.combo)
    {children : List Frame} (yields : outcome = .yield children) : S.Draws a children := by
  cases offers with
  | balks => cases yields
  | exits ends => exact absurd yields (ends children)
  | idles =>
      cases yields
      exact .inl rfl
  | separates events =>
      cases yields
      exact .inr (.inl events)
  | chooses found =>
      cases yields
      obtain ⟨rule, own, same⟩ := offered _ List.mem_cons_self _ (List.mem_of_getElem? found)
      rw [same]
      exact .inr (.inr ⟨rule, own, _, _, rfl⟩)
  | misses => cases yields

theorem Settles.draws {deeds : List ChoiceDeed} {next : ChoiceAwaiting} {outcome : Outcome}
    (settles : S.Settles a deeds outcome next)
    (offered : ∀ candidates, .surveys candidates ∈ deeds → ∀ choice ∈ candidates,
      ∃ rule ∈ a.module.rules, choice.combo = rule.combo)
    {children : List Frame} (yields : outcome = .yield children) : S.Draws a children := by
  cases settles with
  | stops ends => exact absurd yields (ends children)
  | exits ends => exact absurd yields (ends children)
  | goesOn offers =>
      refine offers.draws (fun candidates member => offered candidates ?_) yields
      exact .tail _ (.tail _ (.tail _ member))

theorem ChoiceMove.draws {stage : ChoiceStage} {deeds : List ChoiceDeed} {next : ChoiceAwaiting}
    {outcome : Outcome} {seen : List Occurrence} (move : S.ChoiceMove a stage deeds outcome next)
    (tells : a.Tells deeds seen) {children : List Frame} (yields : outcome = .yield children) :
    S.Draws a children := by
  cases move with
  | quits ends => exact absurd yields (ends children)
  | separates events =>
      cases yields
      exact .inr (.inl events)
  | settles noEvents settles =>
      exact settles.draws (fun _ member _ => tells.combo (List.mem_cons_of_mem _ member)) yields
  | settlesLate settles => exact settles.draws (fun _ member _ => tells.combo member) yields
  | stops free ends => exact absurd yields (ends children)
  | offers free offers =>
      exact offers.draws (fun _ member _ => tells.combo (List.mem_cons_of_mem _ member)) yields

theorem Draws.carries (supplies : S.Supplies holds) (parts : ∀ part ∈ a.module.parts, holds part)
    {children : List Frame} (draws : S.Draws a children) :
    ∀ child ∈ children, child.Carries holds := by
  rcases draws with rfl | events | ⟨rule, own, s, focus, rfl⟩
  · exact List.forall_mem_nil _
  · exact supplies.events events
  · refine carries_combo (fun m inside => parts m (List.mem_cons_of_mem _ ?_)) s focus
    rw [Module.inner_eq]
    refine Rule.mem_innerAll.mpr ⟨rule, own, ?_⟩
    rw [Rule.inner_eq]
    exact inside

private theorem carries_step {step : PlanStep} (inner : ∀ m ∈ step.action.inner, holds m) :
    ∀ f ∈ a.stepFrames step, f.Carries holds := by
  refine carries_combo (fun m inside => ?_) step.substitution none
  rw [Action.innerAll, Action.innerAll, List.append_nil] at inside
  exact inner m inside

private theorem begun_carries {plan : Option Plan}
    (planned : ∀ steps, plan = some steps → ∀ step ∈ steps, ∀ m ∈ step.action.inner, holds m) :
    (∀ m ∈ (StrategyState.plans (.begun plan)).code, holds m) ∧
      ∀ child ∈ a.planFrames plan, child.Carries holds := by
  match plan with
  | none => exact ⟨List.forall_mem_nil _, List.forall_mem_nil _⟩
  | some [] => exact ⟨List.forall_mem_nil _, List.forall_mem_nil _⟩
  | some (step :: rest) =>
      constructor
      · intro m member
        obtain ⟨action, queued, inside⟩ := Action.mem_innerAll.mp member
        obtain ⟨other, later, rfl⟩ := List.mem_map.mp queued
        exact planned _ rfl other (List.mem_cons_of_mem _ later) m inside
      · exact carries_step (planned _ rfl step List.mem_cons_self)

private theorem planTurn_carries {state later : PlanState} {left : Activation} {outcome : Outcome}
    {seen : List Occurrence} (supplies : S.Supplies holds) (given : ∀ o ∈ seen, o.Given S)
    (queued : ∀ m ∈ (StrategyState.plans state).code, holds m)
    (turn : a.PlanTurn state (left, later, outcome) seen) {children : List Frame}
    (yields : outcome = .yield children) :
    (∀ m ∈ (StrategyState.plans later).code, holds m) ∧
      ∀ child ∈ children, child.Carries holds := by
  have planned (plan : Option Plan)
      (asked : .exchange (.plan a.module a.substitution) (.ok plan) ∈ seen) :
      ∀ steps, plan = some steps → ∀ step ∈ steps, ∀ m ∈ step.action.inner, holds m := by
    rintro steps rfl
    obtain ⟨world, answered⟩ := given _ asked
    exact supplies.planned _ _ world steps answered
  cases turn with
  | stops cause leaves => exact absurd yields (leaves.departs.ends children)
  | exits running nothing before judges leaves =>
      exact absurd yields (leaves.departs.ends children)
  | fails => cases yields
  | replans =>
      cases yields
      exact begun_carries (planned _ (by simp))
  | begins =>
      cases yields
      exact begun_carries (planned _ (by simp))
  | steps running next upkeep =>
      cases yields
      obtain ⟨rest, whole, rfl⟩ := PlanState.exists_of_take? next
      rw [StrategyState.code, whole, Option.getD_some, List.map_cons, Action.innerAll,
        List.forall_mem_append] at queued
      exact ⟨queued.2, carries_step queued.1⟩

private theorem absorb_carries {state : PlanState}
    (queued : ∀ m ∈ (StrategyState.plans state).code, holds m)
    (previous : Option RunResult) :
    ∀ m ∈ (StrategyState.plans (state.absorb a previous).2).code, holds m := by
  cases previous with
  | none => exact queued
  | some result =>
      unfold PlanState.absorb
      dsimp only
      split
      · cases result.performedAction with
        | true => exact queued
        | false => exact List.forall_mem_nil _
      · exact queued

theorem Pursues.carries {previous : Option RunResult} {strategy : StrategyState}
    {left : ModuleFrame × Outcome} {seen : List Occurrence} (supplies : S.Supplies holds)
    (given : ∀ o ∈ seen, o.Given S) (parts : ∀ part ∈ a.module.parts, holds part)
    (queued : ∀ m ∈ strategy.code, holds m) (pursues : S.Pursues a previous strategy left seen)
    {children : List Frame} (yields : left.2 = .yield children) :
    (∀ m ∈ left.1.strategy.code, holds m) ∧ ∀ child ∈ children, child.Carries holds := by
  cases pursues with
  | @passes state _ _ _ _ turn =>
      rw [← (PassState.absorb_keeps state a previous).module] at parts
      exact PassTurn.carries supplies parts (by exact queued) turn yields
  | @choices state _ _ _ _ _ tells move =>
      rw [← (ChoiceState.absorb_keeps state a previous).module] at parts
      exact ⟨List.forall_mem_nil _, (move.draws tells yields).carries supplies parts⟩
  | plans turn => exact planTurn_carries supplies given (absorb_carries queued previous) turn yields

private theorem resumeModule_carries {g : ModuleFrame} (supplies : S.Supplies holds)
    (carries : (Frame.module g).Carries holds) (previous : Option RunResult) :
    (S.resumeModule g previous).Returns fun left =>
      Frame.GoesOnAs (Frame.Carries holds) (.module left.1, left.2) := by
  obtain ⟨parts, queued⟩ := List.forall_mem_append.mp carries
  rw [← S.present_module g] at parts
  refine (S.resumeModule_turn g previous).mono fun left turn children yields => ?_
  rcases turn with ⟨failure, failed⟩ | ⟨keeps, seen, given, pursues⟩
  · cases failed.symm.trans yields
  · obtain ⟨later, pushed⟩ := pursues.carries supplies given parts queued yields
    rw [← keeps.module] at parts
    exact ⟨List.forall_mem_append.mpr ⟨parts, later⟩, pushed⟩

/-! ### Frames -/

/-- A frame goes on with the code it has, and so do the frames that it pushes. -/
theorem resume_carries {f : Frame} (supplies : S.Supplies holds) (carries : f.Carries holds)
    (previous : Option Completed) :
    (S.resume f previous).Returns (Frame.GoesOnAs (Frame.Carries holds)) := by
  have withResult (resumed : ∀ result,
      (S.resumeWith f result).Returns (Frame.GoesOnAs (Frame.Carries holds))) :
      (S.resume f previous).Returns (Frame.GoesOnAs (Frame.Carries holds)) := by
    cases previous with
    | none => exact resumed none
    | some completed =>
        obtain ⟨kind, result⟩ := completed
        cases result with
        | error failure => exact Exec.returns_pure (.of_result ⟨_, rfl⟩)
        | ok result => exact resumed (some result)
  cases f with
  | module g => exact withResult fun r => Exec.Returns.map (resumeModule_carries supplies carries r)
  | combo c => exact withResult fun r => Exec.returns_pure (resumeCombo_carries carries r)
  | hole => exact withResult fun r => Exec.returns_pure (.of_result ⟨_, rfl⟩)
  | rule g =>
      refine (S.resume_returns (.rule g) previous).mono fun left resumed => ?_
      have kind := Frame.kind_eq_of_origin resumed.1
      refine resumed.2.carries supplies ?_ (.inl kind)
      rw [Frame.Carries, ← Frame.code_origin (.inl kind), resumed.1]
      exact carries
  | action x =>
      refine (S.resume_returns (.action x) previous).mono fun left resumed => ?_
      have kind := Frame.kind_eq_of_origin resumed.1
      refine resumed.2.carries supplies ?_ (.inr kind)
      rw [Frame.Carries, ← Frame.code_origin (.inr kind), resumed.1]
      exact carries

end Setting

end CognitiveAgent
