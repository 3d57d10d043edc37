import CognitiveAgent.Proofs.Termination

/-!
The modules that have been entered. As long as nothing has failed, the situation lists the names
of the prepared module frames on the stack, from the bottom to the top. So a module that is left
takes away the last entry, whatever names stand before it. A failure leaves the list as it is.
-/

set_option autoImplicit false

namespace CognitiveAgent

variable {σ ω α β : Type}

def Frame.entry : Frame → List String
  | .module f => if f.activation.prepared then [f.activation.module.name] else []
  | .rule _ | .combo _ | .action _ | .hole => []

def enteredNames (frames : List Frame) : List String := frames.reverse.flatMap Frame.entry

private theorem enteredNames_cons (f : Frame) (below : List Frame) :
    enteredNames (f :: below) = enteredNames below ++ f.entry := by
  simp [enteredNames]

private theorem enteredNames_append (upper lower : List Frame) :
    enteredNames (upper ++ lower) = enteredNames lower ++ enteredNames upper := by
  simp [enteredNames]

private theorem Frame.entry_origin (f : Frame) : f.origin.entry = [] := by
  cases f <;> rfl

private theorem Frame.entry_of_prepared {f : ModuleFrame}
    (prepared : f.activation.prepared = true) :
    (Frame.module f).entry = [f.activation.module.name] := if_pos prepared

theorem Frame.entry_of_unprepared {f : ModuleFrame} (unprepared : f.activation.prepared = false) :
    (Frame.module f).entry = [] := by
  simp only [entry, unprepared, Bool.false_eq_true, if_false]

/-- Only frames that have not been resumed yet are pushed. -/
theorem Setting.Proper.enteredNames_children {S : Setting σ ω} {f : Frame} {children : List Frame}
    (proper : S.Proper f (.yield children)) : enteredNames children.reverse = [] := by
  cases proper with
  | idle => rfl
  | @push _ child _ awaits =>
      have holes (count : Nat) : enteredNames (List.replicate count .hole) = [] := by
        simp [enteredNames, Frame.entry]
      have entry : child.entry = [] := by
        rw [← awaits.child_origin]
        exact child.entry_origin
      rw [List.reverse_append, List.reverse_replicate, enteredNames_append, holes, List.nil_append,
        List.reverse_singleton, enteredNames_cons, entry]
      rfl

/-- What is listed after a frame with this entry was resumed: its entry goes when it is done. -/
def Outcome.listing (outcome : Outcome) (base entry : List String) : List String :=
  match outcome with
  | .done _ => base
  | .yield _ | .failed _ => base ++ entry

private theorem Outcome.listing_nil (outcome : Outcome) (base : List String) :
    outcome.listing base [] = base := by
  cases outcome with
  | done result => rfl
  | yield children => exact List.append_nil base
  | failed failure => exact List.append_nil base

/-! ### A logic of the list of entered modules -/

namespace Exec

def Stays (computation : Exec σ ω α) : Prop := ∀ s, (computation s).2.entered = s.entered

def Lists (computation : Exec σ ω α) (names : List String) (holds : α → List String → Prop) :
    Prop :=
  ∀ s, s.entered = names → holds (computation s).1 (computation s).2.entered

variable {names : List String}

private theorem lists_pure {holds : α → List String → Prop} {value : α} (here : holds value names) :
    Lists (pure value : Exec σ ω α) names holds := by
  rintro s rfl
  exact here

theorem Lists.bind {first : Exec σ ω α} {rest : α → Exec σ ω β}
    {middle : α → List String → Prop} {holds : β → List String → Prop}
    (before : Lists first names middle)
    (after : ∀ value now, middle value now → Lists (rest value) now holds) :
    Lists (first >>= rest) names holds := by
  intro s listed
  exact after _ _ (before s listed) (first s).2 rfl

/-- A computation that stays may be run first. -/
theorem Stays.bind {first : Exec σ ω α} {rest : α → Exec σ ω β} {holds : β → List String → Prop}
    (stays : first.Stays) (after : ∀ value, Lists (rest value) names holds) :
    Lists (first >>= rest) names holds := by
  rintro s rfl
  exact after _ _ (stays s)

end Exec

namespace Setting

variable (S : Setting σ ω)

/-- Whatever does not enter or leave a module itself agrees with itself on the list. -/
theorem reflects_entered (names : List String) :
    S.Reflects S fun s t => s = t ∧ s.entered = names where
  program := rfl
  defaultOrder := rfl
  ask request s t same := by
    obtain ⟨rfl, listed⟩ := same
    exact ⟨rfl, rfl, listed⟩
  tell event s t same := by
    obtain ⟨rfl, listed⟩ := same
    exact ⟨rfl, rfl, listed⟩
  log term s t same := by
    obtain ⟨rfl, listed⟩ := same
    exact ⟨rfl, rfl, listed⟩
  shuffle items s t same := by
    obtain ⟨rfl, listed⟩ := same
    exact ⟨rfl, rfl, listed⟩

variable {S}

private theorem stays_of_agree {computation : Exec σ ω α}
    (agree : ∀ names, Exec.Agree (fun s t : Situation σ ω => s = t ∧ s.entered = names)
      computation computation) : computation.Stays :=
  fun s => (agree s.entered s s ⟨rfl, rfl⟩).2.2

variable (S)

private theorem mustStop_stays (a : Activation) : (S.mustStop a).Stays :=
  stays_of_agree fun names => (S.reflects_entered names).mustStop a

private theorem exitHolds_stays (a : Activation) : (S.exitHolds a).Stays :=
  stays_of_agree fun names => (S.reflects_entered names).exitHolds a

private theorem ask_stays (request : Request) : (S.ask request).Stays :=
  stays_of_agree fun names => (S.reflects_entered names).ask request

private theorem note_stays (occurrence : Occurrence) : (S.note occurrence).Stays := fun _ => rfl

variable {base names : List String} {name : String} {a : Activation}

private theorem nextPass_lists (named : a.module.name = name) :
    (S.nextPass a).Lists names fun later now => now = names ∧ later.module.name = name := by
  unfold nextPass
  split
  · refine (S.note_stays _).bind fun _ => ?_
    exact Exec.lists_pure ⟨rfl, named⟩
  · exact Exec.lists_pure ⟨rfl, named⟩

/-- A module that is left takes the last entry away, which is its own. -/
theorem finish_lists (named : a.module.name = name) :
    (S.finish a).Lists (base ++ [name]) fun left now => now = left.2.listing base [name] := by
  have leaves : (Situation.leave name : Exec σ ω Unit).Lists (base ++ [name])
      fun _ now => now = base := by
    intro s listed
    simp [Situation.leave, listed]
  unfold finish
  refine (S.ask_stays _).bind fun stopped => ?_
  have same : (if stopped = true then { a with result := a.result.merge (.stopped .hardStop) }
      else a).module = a.module := by
    cases stopped <;> rfl
  refine (stays_of_agree fun names => (S.reflects_entered names).exitFocus _).bind fun answer => ?_
  cases answer with
  | error fault => exact Exec.lists_pure rfl
  | ok _ =>
      dsimp only
      rw [same, named]
      refine leaves.bind fun _ now gone => ?_
      subst gone
      refine (S.note_stays _).bind fun _ => ?_
      exact Exec.lists_pure rfl

/-- Leaving a module, whatever state its strategy is in. -/
theorem leave_lists {τ : Type} (named : a.module.name = name) (state : τ) :
    (do
      let (left, outcome) ← S.finish a
      return (left, state, outcome) : Exec σ ω (Activation × τ × Outcome)).Lists (base ++ [name])
        fun left now => now = left.2.2.listing base [name] := by
  refine (S.finish_lists named).bind fun left now listed => ?_
  exact Exec.lists_pure listed

/-- A module that must stop is left, and any other one goes on. -/
theorem stop_lists {τ : Type} (named : a.module.name = name) (state : τ)
    {proceed : Exec σ ω (Activation × τ × Outcome)}
    (proceeds : proceed.Lists (base ++ [name]) fun left now => now = left.2.2.listing base [name]) :
    (do
      if ← S.mustStop a then
        let (left, outcome) ← S.finish a
        return (left, state, outcome)
      else proceed).Lists (base ++ [name]) fun left now =>
        now = left.2.2.listing base [name] := by
  refine (S.mustStop_stays a).bind fun stop => ?_
  cases stop with
  | true => exact S.leave_lists named state
  | false => exact proceeds

/-! ### Strategies -/

private theorem endPass_lists (named : a.module.name = name) (state : PassState) :
    (S.endPass a state).Lists (base ++ [name]) fun left now =>
      match left.2.2 with
      | some outcome => now = outcome.listing base [name]
      | none => now = base ++ [name] ∧ left.1.module.name = name := by
  unfold endPass
  refine (S.exitHolds_stays a).bind fun holds => ?_
  split
  · refine (S.finish_lists named).bind fun left now listed => ?_
    exact Exec.lists_pure listed
  · refine (S.nextPass_lists named).bind fun later now next => ?_
    obtain ⟨rfl, named⟩ := next
    split
    · exact Exec.lists_pure rfl
    · exact Exec.lists_pure ⟨rfl, named⟩

private theorem tryNext_lists (named : a.module.name = name) (state : PassState) :
    (S.tryNext a state).Lists (base ++ [name]) fun left now =>
      now = left.2.2.listing base [name] := by
  unfold tryNext
  refine (stays_of_agree fun names =>
    ((S.reflects_entered names).shufflesAlike a.order).openPass state).bind fun opened => ?_
  split
  · exact Exec.lists_pure rfl
  · refine (S.endPass_lists named opened).bind fun left now closed => ?_
    obtain ⟨later, state, outcome⟩ := left
    cases outcome with
    | some outcome => exact Exec.lists_pure closed
    | none => exact Exec.lists_pure closed.1

private theorem resumePasses_lists (named : a.module.name = name) (state : PassState)
    (previous : Option RunResult) :
    (S.resumePasses a state previous).Lists (base ++ [name]) fun left now =>
      now = left.2.2.listing base [name] := by
  have kept := PassState.absorb_keeps state a previous
  unfold resumePasses
  cases taken : state.absorb a previous with
  | mk later closes =>
      rw [taken] at kept
      have stillNamed : later.module.name = name := kept.module ▸ named
      apply S.stop_lists stillNamed
      split
      · refine (S.endPass_lists stillNamed _).bind fun left now closed => ?_
        obtain ⟨next, state, outcome⟩ := left
        cases outcome with
        | some outcome => exact Exec.lists_pure closed
        | none =>
            obtain ⟨rfl, named⟩ := closed
            exact S.tryNext_lists named state
      · exact S.tryNext_lists stillNamed _

private theorem decide_lists (candidates : List Candidate) :
    (S.decide a candidates).Lists (base ++ [name]) fun left now =>
      now = left.2.2.listing base [name] := by
  unfold Setting.decide
  refine (S.ask_stays _).bind fun chosen => ?_
  split
  · exact Exec.lists_pure rfl
  · refine (S.note_stays _).bind fun _ => ?_
    exact Exec.lists_pure rfl

private theorem pause_lists (named : a.module.name = name) :
    (S.pause a).Lists (base ++ [name]) fun left now => now = left.2.2.listing base [name] := by
  unfold pause
  refine (S.exitHolds_stays a).bind fun holds => ?_
  split
  · exact S.leave_lists named _
  · refine (S.nextPass_lists named).bind fun later now next => ?_
    obtain ⟨rfl, named⟩ := next
    split
    · exact Exec.lists_pure rfl
    · exact Exec.lists_pure rfl

private theorem offer_lists (named : a.module.name = name) :
    (S.offer a).Lists (base ++ [name]) fun left now => now = left.2.2.listing base [name] := by
  unfold offer
  refine (stays_of_agree fun names => (S.reflects_entered names).candidatesOf _ _).bind
    fun candidates => ?_
  split
  · exact Exec.lists_pure rfl
  · exact S.pause_lists named
  · exact S.decide_lists _

private theorem reportReward_stays (a : Activation) : (S.reportReward a).Stays :=
  stays_of_agree fun names => (S.reflects_entered names).reportReward a

private theorem settle_lists (named : a.module.name = name) :
    (S.settle a).Lists (base ++ [name]) fun left now => now = left.2.2.listing base [name] := by
  unfold Setting.settle
  refine (S.reportReward_stays a).bind fun _ => ?_
  apply S.stop_lists named
  refine (S.exitHolds_stays a).bind fun holds => ?_
  split
  · exact S.leave_lists named _
  · refine (S.nextPass_lists named).bind fun later now next => ?_
    obtain ⟨rfl, named⟩ := next
    exact S.offer_lists named

private theorem resumeChoices_lists (named : a.module.name = name) (state : ChoiceState)
    (previous : Option RunResult) :
    (S.resumeChoices a state previous).Lists (base ++ [name]) fun left now =>
      now = left.2.2.listing base [name] := by
  have kept := ChoiceState.absorb_keeps state a previous
  unfold resumeChoices
  cases taken : state.absorb a previous with
  | mk later stage =>
      rw [taken] at kept
      have stillNamed : later.module.name = name := kept.module ▸ named
      cases stage with
      | idle => exact S.stop_lists stillNamed _ (S.offer_lists stillNamed)
      | passed chose =>
          cases chose with
          | false => exact S.stop_lists stillNamed _ (S.offer_lists stillNamed)
          | true => exact S.settle_lists stillNamed
      | acted =>
          refine (S.mustStop_stays later).bind fun stop => ?_
          cases stop with
          | true =>
              refine (S.reportReward_stays later).bind fun _ => ?_
              exact S.leave_lists stillNamed _
          | false =>
              cases pass : S.eventPass later with
              | some frames => exact Exec.lists_pure rfl
              | none => exact S.settle_lists stillNamed

private theorem runStep_lists (step : PlanStep) :
    (S.runStep a step).Lists (base ++ [name]) fun outcome now =>
      now = outcome.listing base [name] := by
  unfold runStep
  refine (S.note_stays _).bind fun _ => ?_
  exact Exec.lists_pure rfl

private theorem replan_lists (state : PlanState) :
    (S.replan a state).Lists (base ++ [name]) fun left now =>
      now = left.2.2.listing base [name] := by
  unfold replan
  refine (S.ask_stays _).bind fun answer => ?_
  split
  · exact Exec.lists_pure rfl
  · refine (S.note_stays _).bind fun _ => ?_
    dsimp only
    split
    · exact (S.runStep_lists _).bind fun outcome now listed => Exec.lists_pure listed
    · exact Exec.lists_pure rfl

private theorem resumePlans_lists (named : a.module.name = name) (state : PlanState)
    (previous : Option RunResult) :
    (S.resumePlans a state previous).Lists (base ++ [name]) fun left now =>
      now = left.2.2.listing base [name] := by
  have kept := (PlanState.absorb_keeps state a previous).1
  unfold resumePlans
  cases taken : state.absorb a previous with
  | mk later state =>
      rw [taken] at kept
      have stillNamed : later.module.name = name := kept.module ▸ named
      apply S.stop_lists stillNamed
      split
      · exact (S.runStep_lists _).bind fun outcome now listed => Exec.lists_pure listed
      · dsimp only
        split
        · refine (S.exitHolds_stays later).bind fun holds => ?_
          split
          · exact S.leave_lists stillNamed _
          · refine (S.nextPass_lists stillNamed).bind fun last now next => ?_
            obtain ⟨rfl, named⟩ := next
            exact S.replan_lists _
        · exact S.replan_lists _

/-! ### Resumptions -/

private theorem pursue_lists (prepared : a.prepared = true) (strategy : StrategyState)
    (previous : Option RunResult) :
    (S.pursue a strategy previous).Lists (base ++ [a.module.name]) fun left now =>
      now = left.2.listing base (Frame.module left.1).entry := by
  have listed : (S.pursue a strategy previous).Lists (base ++ [a.module.name]) fun left now =>
      now = left.2.listing base [a.module.name] := by
    cases strategy with
    | passes state =>
        exact (S.resumePasses_lists rfl state previous).bind fun _ _ listed =>
          Exec.lists_pure listed
    | choices state =>
        exact (S.resumeChoices_lists rfl state previous).bind fun _ _ listed =>
          Exec.lists_pure listed
    | plans state =>
        exact (S.resumePlans_lists rfl state previous).bind fun _ _ listed =>
          Exec.lists_pure listed
  intro s names
  have kept := (S.pursue_returns prepared strategy previous s).1
  rw [Frame.entry_of_prepared (kept.prepared prepared), kept.module]
  exact listed s names

/-- A module is listed exactly when its entry has not failed. -/
theorem prepare_lists (a : Activation) :
    (S.prepare a).Lists base fun left now =>
      match left.2 with
      | none => left.1.prepared = true ∧ now = base ++ [left.1.module.name]
      | some _ => left.1.prepared = a.prepared ∧ now = base := by
  unfold prepare
  refine (stays_of_agree fun names => (S.reflects_entered names).furnish _).bind fun answer => ?_
  cases answer with
  | error fault => exact Exec.lists_pure ⟨rfl, rfl⟩
  | ok _ =>
      have enters : (Situation.enter a.module.name : Exec σ ω Unit).Lists base
          fun _ now => now = base ++ [a.module.name] := by
        rintro s rfl
        rfl
      refine enters.bind fun _ now listed => ?_
      refine (S.note_stays _).bind fun _ => ?_
      exact Exec.lists_pure ⟨rfl, listed⟩

private theorem resumeModule_lists (f : ModuleFrame) (previous : Option RunResult) :
    (S.resumeModule f previous).Lists (base ++ (Frame.module f).entry) fun left now =>
      now = left.2.listing base (Frame.module left.1).entry := by
  unfold resumeModule
  cases prepared : f.activation.prepared with
  | true =>
      rw [Frame.entry_of_prepared prepared]
      exact S.pursue_lists prepared f.strategy previous
  | false =>
      rw [Frame.entry_of_unprepared prepared, List.append_nil]
      refine (S.prepare_lists f.activation).bind fun left now entered => ?_
      obtain ⟨later, failure⟩ := left
      cases failure with
      | some failure =>
          obtain ⟨unprepared, rfl⟩ := entered
          rw [prepared] at unprepared
          have entry : (Frame.module ⟨later, f.strategy⟩).entry = [] :=
            Frame.entry_of_unprepared unprepared
          apply Exec.lists_pure
          simp only [entry, Outcome.listing_nil]
      | none =>
          obtain ⟨nowPrepared, rfl⟩ := entered
          exact S.pursue_lists nowPrepared f.strategy previous

/-- What is listed when a frame has been resumed, given that its entry was the last one. -/
theorem resume_lists (f : Frame) (previous : Option Completed) :
    (S.resume f previous).Lists (base ++ f.entry) fun left now =>
      now = left.2.listing base left.1.entry := by
  have withResult (result : Option RunResult) : (S.resumeWith f result).Lists (base ++ f.entry)
      fun left now => now = left.2.listing base left.1.entry := by
    cases f with
    | module frame =>
        exact (S.resumeModule_lists frame result).bind fun left now listed =>
          Exec.lists_pure listed
    | rule frame =>
        change Exec.Lists _ (base ++ []) _
        rw [List.append_nil]
        refine (stays_of_agree fun names =>
          (S.reflects_entered names).resumeRule
            ((S.reflects_entered names).shufflesAlike frame.order) result).bind fun left => ?_
        exact Exec.lists_pure (Outcome.listing_nil _ _).symm
    | combo frame =>
        change Exec.Lists _ (base ++ []) _
        rw [List.append_nil]
        exact Exec.lists_pure (Outcome.listing_nil _ _).symm
    | action frame =>
        change Exec.Lists _ (base ++ []) _
        rw [List.append_nil]
        refine (stays_of_agree fun names =>
          (S.reflects_entered names).resumeAction frame result).bind fun left => ?_
        exact Exec.lists_pure (Outcome.listing_nil _ _).symm
    | hole => exact Exec.lists_pure (List.append_nil base)
  unfold resume
  cases previous with
  | none => exact withResult none
  | some completed =>
      cases returned : completed.result with
      | error failure => simp only [returned]; exact Exec.lists_pure rfl
      | ok result => simp only [returned]; exact withResult (some result)

end Setting

/-! ### Histories and lives -/

namespace History

variable {H : History σ ω} {n : Nat} {f later : Frame} {below : List Frame} {outcome : Outcome}

def Listed (H : History σ ω) (n : Nat) : Prop :=
  (H.situation n).entered = enteredNames (H.stack n).frames

private theorem Resumes.listing (resumes : H.Resumes n f below later outcome)
    (listed : H.Listed n) :
    (H.situation (n + 1)).entered = outcome.listing (enteredNames below) later.entry := by
  unfold Listed at listed
  rw [resumes.frames, enteredNames_cons] at listed
  have lists := H.setting.resume_lists f (H.stack n).previous (H.situation n) listed
  rw [resumes.returns] at lists
  unfold situation
  rw [after_succ resumes.frames, Setting.pop_cons]
  exact lists

private theorem Resumes.listed_succ (resumes : H.Resumes n f below later outcome)
    (listed : H.Listed n) (clean : (H.stack (n + 1)).failed = false) : H.Listed (n + 1) := by
  have listing := resumes.listing listed
  have proper := resumes.proper
  unfold Listed
  rw [listing, resumes.stack_succ]
  cases outcome with
  | done result => rfl
  | yield children =>
      have unentered := proper.2.enteredNames_children
      simp only [Outcome.listing, CallStack.settle]
      rw [enteredNames_append, unentered, List.append_nil, enteredNames_cons]
  | failed failure =>
      rw [resumes.stack_succ] at clean
      cases clean

private theorem situation_succ_of_empty (empty : (H.stack n).frames = []) :
    H.situation (n + 1) = H.situation n := by
  change (H.setting.pop (H.stack n) (H.situation n)).2 = H.situation n
  unfold Setting.pop
  rw [empty]
  rfl

theorem listed (start : H.Listed 0) (clean : (H.stack n).failed = false) : H.Listed n := by
  induction n with
  | zero => exact start
  | succ n ih =>
      have before := ih (unfailed_of_le (Nat.le_succ n) clean)
      cases frames : (H.stack n).frames with
      | nil =>
          unfold Listed
          rw [situation_succ_of_empty frames, stack_succ_of_empty frames]
          exact before
      | cons f below =>
          obtain ⟨later, outcome, resumes⟩ := exists_resumes frames
          exact resumes.listed_succ before clean

private theorem situation_succ_of_failed (failed : (H.stack n).failed = true) :
    H.situation (n + 1) = H.situation n := by
  cases frames : (H.stack n).frames with
  | nil => exact situation_succ_of_empty frames
  | cons f below =>
      unfold situation
      rw [after_succ frames]
      obtain ⟨kind, failure, held⟩ := CallStack.exists_failure failed
      rw [held]
      rfl

/-- Unwinding changes nothing of the situation. -/
theorem situation_of_failed (failed : (H.stack n).failed = true) {m : Nat} (after : n ≤ m) :
    (H.stack m).failed = true ∧ H.situation m = H.situation n := by
  induction after with
  | refl => exact ⟨failed, rfl⟩
  | step after ih => exact ⟨failed_succ ih.1, (situation_succ_of_failed ih.1).trans ih.2⟩

/-- A failing pop leaves what it finds listed, with its own frame if that has been prepared. -/
theorem Resumes.listed_of_failed {failure : Failure}
    (resumes : H.Resumes n f below later (.failed failure)) (listed : H.Listed n) {m : Nat}
    (after : n < m) : (H.situation m).entered = enteredNames (later :: below) := by
  have failed : (H.stack (n + 1)).failed = true := by
    rw [resumes.stack_succ]
    rfl
  rw [(situation_of_failed failed after).2, resumes.listing listed, enteredNames_cons]
  rfl

/-- A prepared module that is left takes the last entry with it. -/
theorem Resumes.unlisted {M : ModuleFrame} {result : RunResult}
    (resumes : H.Resumes n (.module M) below later (.done result)) (listed : H.Listed n) :
    (H.situation n).entered = (H.situation (n + 1)).entered ++ (Frame.module M).entry := by
  rw [resumes.listing listed]
  unfold Listed at listed
  rw [listed, resumes.frames, enteredNames_cons]
  rfl

end History

namespace Setting

variable {S : Setting σ ω} {agent : Agent} {situation : Situation σ ω}

/-- A phase begins with a frame that is not prepared. -/
theorem poised_listed :
    enteredNames (agent.poised S.program).stack.frames = enteredNames agent.stack.frames ∧
      (agent.poised S.program).stack.failed = agent.stack.failed := by
  cases empty : agent.stack.isEmpty with
  | false =>
      rw [poised_of_busy empty]
      exact ⟨rfl, rfl⟩
  | true =>
      rw [Agent.poised, empty, if_pos rfl]
      cases next : agent.pending S.program with
      | nil =>
          rw [Agent.enterPhase_of_nil next]
          exact ⟨rfl, rfl⟩
      | cons phase rest =>
          obtain ⟨frame, opens, enters, _⟩ := Agent.enterPhase_of_cons next
          have unprepared : frame.activation.prepared = false := by
            cases Program.opening_fresh opens <;> rfl
          rw [enters]
          constructor
          · rw [CallStack.push, enteredNames_cons, Frame.entry_of_unprepared unprepared,
              List.append_nil]
          · rfl

theorem step_situation (busy : (agent.poised S.program).stack.isEmpty = false) :
    (S.step agent situation).2 = (S.pop (agent.poised S.program).stack situation).2 := by
  rw [step_poised busy]
  simp only [advance, Exec.bind_apply]
  split <;> rfl

private theorem closePhase_of_failed (failed : agent.stack.failed = true) :
    ∃ failure, agent.closePhase.2 = .failed failure := by
  unfold CallStack.failed at failed
  split at failed
  · rename_i failure held
    refine ⟨failure, ?_⟩
    simp only [Agent.closePhase, held, Option.getD_some]
  · cases failed

end Setting

def AgentStep.isFailed : AgentStep → Bool
  | .failed _ => true
  | .stepped | .phaseDone .. | .finished => false

namespace Life

variable {L : Life σ ω} {n : Nat}

structure Unfailed (L : Life σ ω) (n : Nat) : Prop where
  clean : (L.agent n).stack.failed = false
  unreported : ∀ m, m < n → ∀ failure, L.report m ≠ .failed failure

theorem unfailed_of_reports (clean : (L.agent n).stack.failed = false)
    (quiet : ∀ m, m < n → (L.report m).isFailed = false) : L.Unfailed n := by
  refine ⟨clean, fun m before failure reports => ?_⟩
  have here := quiet m before
  rw [reports] at here
  cases here

/-- The pop of a step that leaves no failure behind does not fail. -/
theorem Unfailed.pop (unfailed : L.Unfailed (n + 1))
    (busy : ((L.agent n).poised L.setting.program).stack.isEmpty = false) :
    ((L.pop n).stack 1).failed = false := by
  cases failed : ((L.pop n).stack 1).failed with
  | false => rfl
  | true =>
      exfalso
      cases left : (L.setting.popped (L.agent n) (L.situation n)).stack.isEmpty with
      | true =>
          have closes := Setting.step_closes busy left
          have held : (L.setting.popped (L.agent n) (L.situation n)).stack.failed = true := failed
          obtain ⟨failure, reports⟩ := Setting.closePhase_of_failed held
          apply unfailed.unreported n (Nat.lt_succ_self n) failure
          exact (congrArg Prod.snd closes).trans reports
      | false =>
          have goesOn := Setting.step_goes_on busy left
          have clean := unfailed.clean
          rw [agent_succ, goesOn] at clean
          exact Bool.false_ne_true (clean.symm.trans failed)

def Listed (L : Life σ ω) (n : Nat) : Prop :=
  (L.situation n).entered = enteredNames (L.agent n).stack.frames

theorem Listed.pop (listed : L.Listed n) : (L.pop n).Listed 0 :=
  listed.trans Setting.poised_listed.1.symm

theorem situation_succ (n : Nat) :
    L.situation (n + 1) = (L.setting.step (L.agent n) (L.situation n)).2 := rfl

private theorem listed_succ (listed : L.Unfailed n → L.Listed n) (unfailed : L.Unfailed (n + 1)) :
    L.Listed (n + 1) := by
  have unreported : ∀ m, m < n → ∀ failure, L.report m ≠ .failed failure := by
    intro m before
    exact unfailed.unreported m (Nat.lt_succ_of_lt before)
  have clean := unfailed.clean
  unfold Listed
  rw [agent_succ] at clean ⊢
  rw [situation_succ]
  cases busy : ((L.agent n).poised L.setting.program).stack.isEmpty with
  | true =>
      obtain ⟨empty, nothing⟩ := Setting.pending_of_unpoised busy
      rw [Setting.step_finished empty nothing] at clean ⊢
      exact listed ⟨clean, unreported⟩
  | false =>
      have popClean := unfailed.pop busy
      have poisedClean : ((L.agent n).poised L.setting.program).stack.failed = false :=
        History.unfailed_of_le (Nat.zero_le 1) popClean
      have before := listed ⟨Setting.poised_listed.2.symm.trans poisedClean, unreported⟩
      have after : (L.pop n).Listed 1 := History.listed before.pop popClean
      rw [Setting.step_situation busy]
      cases left : (L.setting.popped (L.agent n) (L.situation n)).stack.isEmpty with
      | false =>
          rw [Setting.step_goes_on busy left]
          exact after
      | true =>
          have emptied : ((L.pop n).stack 1).frames = [] := List.isEmpty_iff.mp left
          unfold History.Listed at after
          rw [Setting.step_closes busy left, Setting.closePhase_stack left]
          rw [emptied] at after
          exact after

theorem listed (start : L.start = .start) (vacant : L.initial.entered = [])
    (unfailed : L.Unfailed n) : L.Listed n := by
  induction n with
  | zero =>
      change L.initial.entered = enteredNames L.start.stack.frames
      rw [start, vacant]
      rfl
  | succ n ih => exact listed_succ ih unfailed

/-- The rest of the life after a number of steps. -/
theorem after_add (n count : Nat) :
    L.after (n + count) = (⟨L.setting, L.agent n, L.situation n⟩ : Life σ ω).after count := by
  induction count with
  | zero => rfl
  | succ count ih =>
      have next : L.after (n + (count + 1)) =
          ((L.setting.step (L.after (n + count)).1 (L.after (n + count)).2).1.1,
            (L.setting.step (L.after (n + count)).1 (L.after (n + count)).2).2) := rfl
      rw [next, ih]
      rfl

variable {f later : Frame} {below : List Frame}

private theorem busy_of_resumes {outcome : Outcome}
    (resumes : (L.pop n).Resumes 0 f below later outcome) :
    ((L.agent n).poised L.setting.program).stack.isEmpty = false := by
  have frames : ((L.agent n).poised L.setting.program).stack.frames = f :: below := resumes.frames
  rw [CallStack.isEmpty, frames]
  rfl

/-- After a failing step the situation stays as that step has left it. -/
theorem situation_of_failed {failure : Failure}
    (resumes : (L.pop n).Resumes 0 f below later (.failed failure)) {m : Nat} (after : n < m) :
    L.situation m = (L.pop n).situation 1 := by
  obtain ⟨count, rfl⟩ := Nat.exists_eq_add_of_lt after
  have drops : L.setting.Drops ((L.agent n).poised L.setting.program).stack (L.situation n) below
      failure ((L.pop n).situation 1) :=
    ⟨later.kind, Prod.ext resumes.stack_succ rfl⟩
  let rest : Life σ ω := ⟨L.setting, L.agent n, L.situation n⟩
  obtain ⟨climbs, _, finished⟩ := fails_once (L := rest) (busy_of_resumes resumes) drops
  have shifted : L.situation (n + count + 1) = rest.situation (count + 1) :=
    congrArg Prod.snd (after_add n (count + 1))
  rw [shifted]
  by_cases inside : count < below.length
  · exact (climbs count inside).2.1
  · exact congrArg Prod.snd (finished (count + 1) (by omega)).1

end Life

/-- What the lists of entered modules, one after each pop of a run, have to do with the stack at
one pop: the pop of `H` that follows `k` others and the pop of the run that follows `n` others. -/
structure History.Enrols (H : History σ ω) (k : Nat) (lists : Nat → List String) (n : Nat) :
    Prop where
  names : lists n = enteredNames (H.stack k).frames
  vacant : (H.stack k).frames = [] → lists n = []
  leaves : ∀ {M : ModuleFrame} {below : List Frame} {later : Frame} {result : RunResult},
    H.Resumes k (.module M) below later (.done result) →
      lists n = lists (n + 1) ++ (Frame.module M).entry
  fails : ∀ {f : Frame} {below : List Frame} {later : Frame} {failure : Failure},
    H.Resumes k f below later (.failed failure) →
      ∀ m, n < m → lists m = enteredNames (later :: below)

/-- As long as nothing has failed, the modules listed as entered are the prepared module frames on
the stack, from the bottom to the top: on any stack from which popping begins with its own list,
and in the life of any agent that begins with none. A module that is left takes the last entry
away, its own if it was prepared before; and after a failing pop the list stays for ever what the
frames of that pop have entered. -/
theorem entered_modules (S : Setting σ ω) (situation : Situation σ ω) (n : Nat) :
    (∀ stack : CallStack, situation.entered = enteredNames stack.frames →
      let H : History σ ω := ⟨S, stack, situation⟩
      (H.stack n).failed = false → H.Enrols n (fun m => (H.situation m).entered) n) ∧
    (situation.entered = [] →
      let L : Life σ ω := ⟨S, .start, situation⟩
      L.Unfailed n → (L.situation n).entered = enteredNames (L.agent n).stack.frames ∧
        (L.pop n).Enrols 0 (fun m => (L.situation m).entered) n) := by
  constructor
  · intro stack start H clean
    have listed : H.Listed n := History.listed start clean
    constructor
    · exact listed
    · intro empty
      unfold History.Listed at listed
      rw [listed, empty]
      rfl
    · intro M below later result resumes
      exact resumes.unlisted listed
    · intro f below later failure resumes m after
      exact resumes.listed_of_failed listed after
  · intro vacant L unfailed
    have listed : L.Listed n := Life.listed rfl vacant unfailed
    have popListed := listed.pop
    refine ⟨listed, ?_⟩
    constructor
    · exact popListed
    · intro empty
      unfold History.Listed at popListed
      rw [empty] at popListed
      exact popListed
    · intro M below later result resumes
      have next : L.situation (n + 1) = (L.pop n).situation 1 :=
        Setting.step_situation (Life.busy_of_resumes resumes)
      rw [next]
      exact resumes.unlisted popListed
    · intro f below later failure resumes m after
      rw [Life.situation_of_failed resumes after]
      exact resumes.listed_of_failed popListed (Nat.zero_lt_succ 0)

def relapsing : Module :=
  let deep : Term := .atom "deep"
  { Module.ofName "descend" with
    rules := [.ofKind .ifThen ⟨[{ positive := false, attitude := .belief, formula := deep }]⟩
      [.insert deep, .callNamed "descend" [], .callNamed "missing" []]] }

def relapse : History Simulation.World Simulation.Trace :=
  .ofModule (Simulation.setting ⟨[relapsing], none, none, none, none⟩ .linear false)
    (.start relapsing .empty none none) (Simulation.situation {} ⟨Vector.replicate 8 0, 0⟩)

private theorem relapse_leaves : ∃ M below later result,
    relapse.Resumes 8 (.module M) below later (.done result) := by
  have top : (relapse.stack 8).frames.head?.map Frame.kind = some .module := by decide +kernel
  have returned : (relapse.stack 9).given.isSome = true := by decide +kernel
  cases frames : (relapse.stack 8).frames with
  | nil => rw [frames] at top; cases top
  | cons f below =>
      rw [frames] at top
      obtain ⟨later, outcome, resumes⟩ := History.exists_resumes frames
      rw [resumes.stack_succ] at returned
      cases f with
      | module M =>
          cases outcome with
          | done result => exact ⟨M, below, later, result, resumes⟩
          | yield children => cases returned
          | failed failure => cases returned
      | rule | combo | action | hole => cases top

private theorem relapse_fails : ∃ f below later failure,
    relapse.Resumes 11 f below later (.failed failure) := by
  have busy : (relapse.stack 11).frames.isEmpty = false := by decide +kernel
  have failed : (relapse.stack 12).failed = true := by decide +kernel
  cases frames : (relapse.stack 11).frames with
  | nil => rw [frames] at busy; cases busy
  | cons f below =>
      obtain ⟨later, outcome, resumes⟩ := History.exists_resumes frames
      rw [resumes.stack_succ] at failed
      cases outcome with
      | failed failure => exact ⟨f, below, later, failure, resumes⟩
      | yield children => cases failed
      | done result => cases failed

theorem entered_modules_of_relapse :
    relapse.initial.entered = enteredNames relapse.start.frames ∧
    (∃ M below later result, (relapse.stack 8).failed = false ∧
      relapse.Resumes 8 (.module M) below later (.done result) ∧
      (relapse.situation 8).entered = ["descend", "descend"] ∧
      (relapse.situation 8).entered = (relapse.situation 9).entered ++ (Frame.module M).entry) ∧
    (∃ f below later failure, (relapse.stack 11).failed = false ∧
      relapse.Resumes 11 f below later (.failed failure) ∧
      ∀ m, 11 < m → (relapse.situation m).entered = ["descend"]) := by
  obtain ⟨M, below, later, result, leaves⟩ := relapse_leaves
  obtain ⟨f, under, left, failure, fails⟩ := relapse_fails
  have start : relapse.initial.entered = enteredNames relapse.start.frames := rfl
  have early : (relapse.stack 8).failed = false := by decide +kernel
  have late : (relapse.stack 11).failed = false := by decide +kernel
  have twice : (relapse.situation 8).entered = ["descend", "descend"] := by decide +kernel
  have once : (relapse.situation 12).entered = ["descend"] := by decide +kernel
  have first := (entered_modules relapse.setting relapse.initial 8).1 relapse.start start early
  have second := (entered_modules relapse.setting relapse.initial 11).1 relapse.start start late
  refine ⟨start, ⟨M, below, later, result, early, leaves, twice, first.leaves leaves⟩,
    ⟨f, under, left, failure, late, fails, ?_⟩⟩
  intro m after
  have stays : (relapse.situation m).entered = (relapse.situation 12).entered :=
    (second.fails fails m after).trans (second.fails fails 12 (by decide)).symm
  exact stays.trans once

end CognitiveAgent
