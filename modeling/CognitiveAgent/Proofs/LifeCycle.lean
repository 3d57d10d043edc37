import CognitiveAgent.Proofs.Independence
import CognitiveAgent.Proofs.Phases

/-!
The life cycle of an agent. Its phases follow one order, each of them is reported at most once, and
what is reported is the outcome of the phase's own frame, run alone. Main statement: the steps of a
new agent, as many as there are, keep to this, and running the agent gives the result of its main
module, unless it has none or has failed before.
-/

set_option autoImplicit false

namespace CognitiveAgent

variable {σ ω : Type}

namespace Phase

variable {p q : Phase}

def rank : Phase → Nat
  | .init => 0
  | .main => 1
  | .shutdown => 2
  | .finished => 3

private theorem mem_remaining_iff : q ∈ p.remaining ↔ p.rank ≤ q.rank ∧ q ≠ .finished := by
  cases p <;> cases q <;> decide

private theorem rank_le_finished (p : Phase) : p.rank ≤ Phase.finished.rank := by
  cases p <;> decide

private theorem rank_lt_next (unfinished : p ≠ .finished) : p.rank < p.next.rank := by
  cases p with
  | finished => exact absurd rfl unfinished
  | init | main | shutdown => decide

private theorem rank_next_le (before : p.rank < q.rank) : p.next.rank ≤ q.rank := by
  cases p <;> cases q <;> revert before <;> decide

private theorem eq_of_rank_eq (same : p.rank = q.rank) : p = q := by
  cases p <;> cases q <;> revert same <;> decide

end Phase

namespace Program

variable {program : Program} {p : Phase} {f : ModuleFrame}

private theorem opening_isMain (opens : program.opening p = some f) :
    f.activation.isMain = true ↔ p = .main := by
  cases p with
  | init | shutdown =>
      obtain ⟨m, _, rfl⟩ := Option.map_eq_some_iff.mp opens
      exact ⟨fun main => Bool.noConfusion main, fun main => Phase.noConfusion main⟩
  | main =>
      obtain ⟨m, _, rfl⟩ := Option.map_eq_some_iff.mp opens
      exact ⟨fun _ => rfl, fun _ => rfl⟩
  | finished => cases opens

private theorem unfinished_of_opening (opens : program.opening p = some f) : p ≠ .finished := by
  rintro rfl
  cases opens

end Program

namespace Agent

variable {agent : Agent} {kind : FrameKind}

private theorem closePhase_ok {r : RunResult} (left : agent.stack = ⟨[], some ⟨kind, .ok r⟩⟩) :
    agent.closePhase =
      ({ phase := agent.phase.next
         mainResult := if agent.phase = .main then some r else agent.mainResult },
        .phaseDone agent.phase r) := by
  unfold closePhase
  rw [left]
  rfl

private theorem closePhase_error {failure : Failure}
    (left : agent.stack = ⟨[], some ⟨kind, .error failure⟩⟩) :
    agent.closePhase = (agent.stopped, .failed failure) := by
  unfold closePhase
  rw [left]
  rfl

private theorem poised_mainResult (agent : Agent) (program : Program) :
    (agent.poised program).mainResult = agent.mainResult := by
  unfold poised enterPhase
  split
  · dsimp only
    split <;> rfl
  · rfl

end Agent

namespace Setting

variable {S : Setting σ ω} {agent : Agent} {situation : Situation σ ω} {stack : CallStack}

/-- A stack that a pop has emptied holds an outcome. -/
theorem pop_empties (busy : stack.isEmpty = false)
    (empty : (S.pop stack situation).1.isEmpty = true) :
    ∃ completed, (S.pop stack situation).1 = ⟨[], some completed⟩ := by
  obtain ⟨frames, previous⟩ := stack
  cases frames with
  | nil => cases busy
  | cons f below =>
      rw [pop_cons] at empty ⊢
      generalize S.resume f previous situation = resumed at empty ⊢
      obtain ⟨⟨later, outcome⟩, now⟩ := resumed
      cases outcome with
      | yield children =>
          have none : children.reverse ++ later :: below = [] := List.isEmpty_iff.mp empty
          exact absurd none (List.append_ne_nil_of_right_ne_nil _ (List.cons_ne_nil _ _))
      | done r =>
          have none : below = [] := List.isEmpty_iff.mp empty
          exact ⟨⟨later.kind, .ok r⟩, by rw [none]; rfl⟩
      | failed failure =>
          have none : below = [] := List.isEmpty_iff.mp empty
          exact ⟨⟨later.kind, .error failure⟩, by rw [none]; rfl⟩

/-- An agent without a stack enters the first of its coming phases that has a module. -/
theorem poised_opens {program : Program} (empty : agent.stack.isEmpty = true)
    (busy : (agent.poised program).stack.isEmpty = false) :
    ∃ p f, program.opening p = some f ∧
      agent.poised program = { agent with phase := p, stack := agent.stack.push (.module f) } ∧
      agent.phase.rank ≤ p.rank ∧
      ∀ q, (program.opening q).isSome = true → agent.phase.rank ≤ q.rank → p.rank ≤ q.rank := by
  cases coming : agent.pending program with
  | nil =>
      rw [Agent.poised, empty, if_pos rfl, Agent.enterPhase_of_nil coming] at busy
      exact absurd (empty.symm.trans busy) Bool.noConfusion
  | cons p rest =>
      obtain ⟨f, opens, enters, others⟩ := Agent.enterPhase_of_cons coming
      have listed (q : Phase) : q ∈ p :: rest ↔ q ∈ agent.phase.remaining ∧
          (program.opening q).isSome = true := by
        rw [← coming]
        exact List.mem_filter
      refine ⟨p, f, opens, by rw [Agent.poised, empty, if_pos rfl, enters], ?_, ?_⟩
      · exact (Phase.mem_remaining_iff.mp ((listed p).mp List.mem_cons_self).1).1
      · intro q hasModule notPast
        obtain ⟨g, opensToo⟩ := Option.isSome_iff_exists.mp hasModule
        have remains : q ∈ agent.phase.remaining :=
          Phase.mem_remaining_iff.mpr ⟨notPast, Program.unfinished_of_opening opensToo⟩
        rcases List.mem_cons.mp ((listed q).mpr ⟨remains, hasModule⟩) with rfl | later
        · exact Nat.le_refl _
        · rw [← others] at later
          have after := (Phase.mem_remaining_iff.mp (List.mem_filter.mp later).1).1
          have next := Phase.rank_lt_next (Program.unfinished_of_opening opens)
          omega

end Setting

namespace History

/-- A stack that stays busy until its last pop is run to its end. -/
theorem runStack_eq (H : History σ ω) (n count : Nat)
    (busy : ∀ i, n < i → i ≤ n + count → (H.stack i).isEmpty = false)
    (empty : (H.stack (n + count + 1)).isEmpty = true) :
    H.setting.runStack (count + 1) (H.stack n) (H.situation n) =
      ((H.stack (n + count + 1), true), H.situation (n + count + 1)) := by
  unfold Setting.runStack
  induction count generalizing n with
  | zero =>
      have reached : (H.setting.pop (H.stack n) (H.situation n)).1.isEmpty = true := empty
      rw [Setting.popUntil_succ, if_pos reached]
      rfl
  | succ count ih =>
      have more : (H.setting.pop (H.stack n) (H.situation n)).1.isEmpty = false :=
        busy (n + 1) (Nat.lt_succ_self n) (by omega)
      have time : n + 1 + count + 1 = n + (count + 1) + 1 := by omega
      have rest := ih (n + 1) (fun i after before => busy i (by omega) (by omega))
        (by rw [time]; exact empty)
      rw [Setting.popUntil_succ, more, if_neg Bool.false_ne_true, ← time]
      exact rest

end History

namespace Life

variable {L : Life σ ω} {m n : Nat} {p q : Phase} {f : ModuleFrame} {r s : RunResult}

inductive Turnout (L : Life σ ω) (n : Nat) : Prop where
  | idle (empty : (L.agent n).stack = .empty)
      (nothing : (L.agent n).pending L.setting.program = [])
      (reports : L.report n = .finished)
      (next : L.agent (n + 1) = { L.agent n with phase := .finished })
  | goesOn (busy : ((L.agent n).poised L.setting.program).stack.isEmpty = false)
      (reports : L.report n = .stepped)
      (next : L.agent (n + 1) = L.setting.popped (L.agent n) (L.situation n))
      (still : (L.agent (n + 1)).stack.isEmpty = false)
  | closes {kind : FrameKind} {r : RunResult}
      (busy : ((L.agent n).poised L.setting.program).stack.isEmpty = false)
      (left : (L.setting.popped (L.agent n) (L.situation n)).stack = ⟨[], some ⟨kind, .ok r⟩⟩)
      (reports : L.report n = .phaseDone ((L.agent n).poised L.setting.program).phase r)
      (next : L.agent (n + 1) =
        { phase := ((L.agent n).poised L.setting.program).phase.next
          mainResult := if ((L.agent n).poised L.setting.program).phase = .main then some r
            else ((L.agent n).poised L.setting.program).mainResult })
  | fails {failure : Failure}
      (busy : ((L.agent n).poised L.setting.program).stack.isEmpty = false)
      (reports : L.report n = .failed failure)
      (next : L.agent (n + 1) = ((L.agent n).poised L.setting.program).stopped)

private theorem turnout (start : L.start = .start) (n : Nat) : L.Turnout n := by
  cases busy : ((L.agent n).poised L.setting.program).stack.isEmpty with
  | true =>
      obtain ⟨isEmpty, nothing⟩ := Setting.pending_of_unpoised busy
      have stepped : L.setting.step (L.agent n) (L.situation n) =
          (({ L.agent n with phase := .finished }, .finished), L.situation n) :=
        Setting.step_finished isEmpty nothing
      refine .idle ?_ nothing (by rw [report, stepped]) (by rw [agent_succ, stepped])
      rcases sound start n with empty | ⟨_, stillBusy⟩
      · exact empty
      · exact absurd (isEmpty.symm.trans stillBusy) Bool.noConfusion
  | false =>
      cases left : (L.setting.popped (L.agent n) (L.situation n)).stack.isEmpty with
      | false =>
          have stepped := Setting.step_goes_on busy left
          have next : L.agent (n + 1) = L.setting.popped (L.agent n) (L.situation n) := by
            rw [agent_succ, stepped]
          exact .goesOn busy (by rw [report, stepped]) next (by rw [next]; exact left)
      | true =>
          have stepped := Setting.step_closes busy left
          obtain ⟨⟨kind, result⟩, last⟩ := Setting.pop_empties busy left
          cases result with
          | ok r =>
              rw [Agent.closePhase_ok last] at stepped
              exact .closes busy last (congrArg Prod.snd stepped) (congrArg Prod.fst stepped)
          | error failure =>
              rw [Agent.closePhase_error last] at stepped
              exact .fails busy (congrArg Prod.snd stepped) (congrArg Prod.fst stepped)

private theorem rank_poised (busy : ((L.agent n).poised L.setting.program).stack.isEmpty = false) :
    (L.agent n).phase.rank ≤ ((L.agent n).poised L.setting.program).phase.rank := by
  cases empty : (L.agent n).stack.isEmpty with
  | false =>
      have same : (L.agent n).poised L.setting.program = L.agent n := Setting.poised_of_busy empty
      exact Nat.le_of_eq (congrArg (fun agent => agent.phase.rank) same.symm)
  | true =>
      obtain ⟨p, f, _, enters, notPast, _⟩ := Setting.poised_opens empty busy
      rw [enters]
      exact notPast

/-- A phase that has a module and is still to come is not skipped. -/
theorem poised_rank_le (busy : ((L.agent n).poised L.setting.program).stack.isEmpty = false)
    (hasModule : (L.setting.program.opening q).isSome = true)
    (notPast : (L.agent n).phase.rank ≤ q.rank) :
    ((L.agent n).poised L.setting.program).phase.rank ≤ q.rank := by
  cases empty : (L.agent n).stack.isEmpty with
  | false => rw [Setting.poised_of_busy empty]; exact notPast
  | true =>
      obtain ⟨p, f, _, enters, _, first⟩ := Setting.poised_opens empty busy
      rw [enters]
      exact first q hasModule notPast

private theorem report_finished (isEmpty : (L.agent n).stack.isEmpty = true)
    (nothing : (L.agent n).pending L.setting.program = []) : L.report n = .finished := by
  rw [report, Setting.step_finished isEmpty nothing]

/-- When no phase is to come, all phases that have a module are past. -/
theorem past_of_nothing (nothing : (L.agent n).pending L.setting.program = [])
    (hasModule : (L.setting.program.opening q).isSome = true) :
    ¬ (L.agent n).phase.rank ≤ q.rank := by
  intro notPast
  obtain ⟨f, opens⟩ := Option.isSome_iff_exists.mp hasModule
  have remains : q ∈ (L.agent n).phase.remaining :=
    Phase.mem_remaining_iff.mpr ⟨notPast, Program.unfinished_of_opening opens⟩
  exact List.filter_eq_nil_iff.mp nothing q remains hasModule

private theorem idle_of_finished (start : L.start = .start) (finished : L.report n = .finished) :
    (L.agent n).stack = .empty ∧ (L.agent n).pending L.setting.program = [] := by
  cases turnout start n with
  | idle empty nothing _ _ => exact ⟨empty, nothing⟩
  | goesOn _ other _ _ => rw [other] at finished; cases finished
  | closes _ _ other _ => rw [other] at finished; cases finished
  | fails _ other _ => rw [other] at finished; cases finished

/-- What the last pop of a phase leaves is what its frame comes to when it is run alone. -/
theorem Conducts.runStack (conducts : L.Conducts p f m n) {completed : Completed}
    (left : (L.setting.popped (L.agent n) (L.situation n)).stack = ⟨[], some completed⟩) :
    L.setting.runStack (n - m + 1) ⟨[.module f], none⟩ (L.situation m) =
      ((⟨[], some completed⟩, true), L.situation (n + 1)) := by
  let H := History.ofModule L.setting f (L.situation m)
  have ordered := conducts.spans.ordered
  have time : m + (n - m) = n := Nat.add_sub_cancel' ordered
  have last : H.after (n - m + 1) = (⟨[], some completed⟩, L.situation (n + 1)) := by
    rw [conducts.spans.pop, situation_succ, Setting.step_situation conducts.busy, ← left]
    rfl
  have emptied : H.stack (n - m + 1) = ⟨[], some completed⟩ := congrArg Prod.fst last
  have reached : H.situation (n - m + 1) = L.situation (n + 1) := congrArg Prod.snd last
  have running (i : Nat) (inside : i ≤ n - m) : (H.stack i).isEmpty = false := by
    cases empty : (H.stack i).isEmpty with
    | false => rfl
    | true =>
        -- An empty stack would stay empty up to the last pop.
        have stays := History.stack_of_empty (List.isEmpty_iff.mp empty) inside
        have same := conducts.spans.stack (Nat.le_of_eq time)
        rw [time] at same
        rw [← empty, ← stays, same]
        exact conducts.busy
  have run := H.runStack_eq 0 (n - m) (fun i _ before => running i (by omega))
    (by rw [Nat.zero_add, emptied]; rfl)
  rw [Nat.zero_add, emptied, reached] at run
  exact run

private theorem rank_step (start : L.start = .start) (n : Nat) :
    (L.agent n).phase.rank ≤ (L.agent (n + 1)).phase.rank := by
  cases turnout start n with
  | idle _ _ _ next =>
      rw [next]
      exact Phase.rank_le_finished _
  | goesOn busy _ next _ =>
      rw [next]
      exact rank_poised busy
  | closes busy _ _ next =>
      rw [next]
      obtain ⟨p, f, m, conducts⟩ := exists_conducts start busy
      have after := Phase.rank_lt_next (Program.unfinished_of_opening conducts.opens)
      have before := rank_poised busy
      rw [conducts.phase] at before ⊢
      exact Nat.le_trans before (Nat.le_of_lt after)
  | fails _ _ next =>
      rw [next]
      exact Phase.rank_le_finished _

private theorem rank_mono (start : L.start = .start) (le : m ≤ n) :
    (L.agent m).phase.rank ≤ (L.agent n).phase.rank := by
  induction le with
  | refl => exact Nat.le_refl _
  | step _ ih => exact Nat.le_trans ih (rank_step start _)

/-- A phase is reported by its last step. -/
theorem conducts_of_phaseDone (start : L.start = .start) (reports : L.report n = .phaseDone p r) :
    ∃ f m kind, L.Conducts p f m n ∧
      L.setting.runStack (n - m + 1) ⟨[.module f], none⟩ (L.situation m) =
        ((⟨[], some ⟨kind, .ok r⟩⟩, true), L.situation (n + 1)) ∧
      L.agent (n + 1) =
        { phase := p.next, mainResult := if p = .main then some r else (L.agent n).mainResult } := by
  cases turnout start n with
  | idle _ _ other _ => rw [other] at reports; cases reports
  | goesOn _ other _ _ => rw [other] at reports; cases reports
  | fails _ other _ => rw [other] at reports; cases reports
  | @closes kind _ busy left same next =>
      rw [same] at reports
      cases reports
      obtain ⟨p, f, m, conducts⟩ := exists_conducts start busy
      have run := conducts.runStack left
      rw [Agent.poised_mainResult] at next
      rw [conducts.phase] at next ⊢
      exact ⟨f, m, kind, conducts, run, next⟩

private theorem rank_lt_of_phaseDone (start : L.start = .start) (before : m < n)
    (first : L.report m = .phaseDone p r) (second : L.report n = .phaseDone q s) :
    p.rank < q.rank := by
  obtain ⟨f, _, _, earlier, _, next⟩ := conducts_of_phaseDone start first
  obtain ⟨g, _, _, later, _, _⟩ := conducts_of_phaseDone start second
  have left := Phase.rank_lt_next (Program.unfinished_of_opening earlier.opens)
  have between := rank_mono start (Nat.succ_le_of_lt before)
  rw [next] at between
  have reached := rank_poised later.busy
  rw [later.phase] at reached
  exact Nat.lt_of_lt_of_le left (Nat.le_trans between reached)

/-- As long as no step fails, a phase that has a module is still to come or has been reported. -/
theorem comes_or_reported (start : L.start = .start)
    (hasModule : (L.setting.program.opening q).isSome = true)
    (unfailed : ∀ m, m < n → (L.report m).isFailed = false) :
    (L.agent n).phase.rank ≤ q.rank ∨ ∃ m r, m < n ∧ L.report m = .phaseDone q r := by
  induction n with
  | zero =>
      left
      change L.start.phase.rank ≤ q.rank
      rw [start]
      exact Nat.zero_le _
  | succ n ih =>
      rcases ih (fun m before => unfailed m (Nat.lt_succ_of_lt before)) with
        comes | ⟨m, r, before, reported⟩
      · cases turnout start n with
        | idle _ nothing _ _ => exact absurd comes (past_of_nothing nothing hasModule)
        | goesOn busy _ next _ =>
            left
            rw [next]
            exact poised_rank_le busy hasModule comes
        | @closes _ r busy _ reports next =>
            rcases Nat.lt_or_eq_of_le (poised_rank_le busy hasModule comes) with later | same
            · left
              rw [next]
              exact Phase.rank_next_le later
            · -- It is the phase itself that this step closes and reports.
              right
              rw [Phase.eq_of_rank_eq same] at reports
              exact ⟨n, r, Nat.lt_succ_self n, reports⟩
        | fails _ reports _ =>
            have clean := unfailed n (Nat.lt_succ_self n)
            rw [reports] at clean
            cases clean
      · exact .inr ⟨m, r, Nat.lt_succ_of_lt before, reported⟩

/-- By its end, an agent that has not failed has reported the phases that have a module. -/
theorem reported_iff (start : L.start = .start) (finished : L.report n = .finished)
    (unfailed : ∀ m, m < n → (L.report m).isFailed = false) (p : Phase) :
    (∃ m r, m < n ∧ L.report m = .phaseDone p r) ↔
      (L.setting.program.opening p).isSome = true := by
  constructor
  · rintro ⟨m, r, _, reports⟩
    obtain ⟨f, _, _, conducts, _, _⟩ := conducts_of_phaseDone start reports
    exact Option.isSome_iff_exists.mpr ⟨f, conducts.opens⟩
  · intro hasModule
    rcases comes_or_reported start hasModule unfailed with comes | reported
    · have nothing := (idle_of_finished start finished).2
      exact absurd comes (past_of_nothing nothing hasModule)
    · exact reported

/-- The agent keeps the result that its main phase has reported. -/
theorem mainResult_iff (start : L.start = .start) (n : Nat) (r : RunResult) :
    (L.agent n).mainResult = some r ↔ ∃ m, m < n ∧ L.report m = .phaseDone .main r := by
  induction n with
  | zero =>
      change L.start.mainResult = some r ↔ _
      rw [start]
      constructor
      · intro none
        cases none
      · rintro ⟨m, before, _⟩
        exact absurd before (Nat.not_lt_zero m)
  | succ n ih =>
      have unchanged (same : (L.agent (n + 1)).mainResult = (L.agent n).mainResult)
          (other : ∀ s, L.report n ≠ .phaseDone .main s) :
          (L.agent (n + 1)).mainResult = some r ↔
            ∃ m, m < n + 1 ∧ L.report m = .phaseDone .main r := by
        rw [same, ih]
        constructor
        · rintro ⟨m, before, reports⟩
          exact ⟨m, Nat.lt_succ_of_lt before, reports⟩
        · rintro ⟨m, before, reports⟩
          rcases Nat.lt_or_eq_of_le (Nat.le_of_lt_succ before) with earlier | rfl
          · exact ⟨m, earlier, reports⟩
          · exact absurd reports (other r)
      have poised := (L.agent n).poised_mainResult L.setting.program
      cases turnout start n with
      | idle _ _ reports next =>
          apply unchanged
          · rw [next]
          · simp [reports]
      | goesOn _ reports next _ =>
          apply unchanged
          · rw [next]
            exact poised
          · simp [reports]
      | fails _ reports next =>
          apply unchanged
          · rw [next]
            exact poised
          · simp [reports]
      | @closes _ s _ _ reports next =>
          by_cases isMain : ((L.agent n).poised L.setting.program).phase = .main
          · rw [isMain] at reports
            have kept : (L.agent (n + 1)).mainResult = some s := by
              rw [next, if_pos isMain]
            rw [kept]
            constructor
            · intro same
              cases same
              exact ⟨n, Nat.lt_succ_self n, reports⟩
            · rintro ⟨m, before, earlier⟩
              rcases Nat.lt_or_eq_of_le (Nat.le_of_lt_succ before) with twice | rfl
              · exact absurd (rank_lt_of_phaseDone start twice earlier reports) (Nat.lt_irrefl _)
              · rw [reports] at earlier
                cases earlier
                rfl
          · apply unchanged
            · rw [next, if_neg isMain]
              exact poised
            · intro s' other
              rw [reports] at other
              exact isMain (AgentStep.phaseDone.inj other).1

private theorem step_eq (L : Life σ ω) (n : Nat) : L.setting.step (L.agent n) (L.situation n) =
    ((L.agent (n + 1), L.report n), L.situation (n + 1)) := rfl

private theorem runAgent_finished (finished : L.report n = .finished) (fuel : Nat) :
    L.setting.runAgent (fuel + 1) (L.agent n) (L.situation n) =
      ((L.agent (n + 1), some (.ok ((L.agent (n + 1)).mainResult.getD .start))),
        L.situation (n + 1)) := by
  simp only [Setting.runAgent, Exec.bind_apply, step_eq, finished]
  rfl

/-- A run that succeeds ends with the step that finds nothing more to do, and no step of it fails. -/
theorem runAgent_ok {fuel : Nat} {agent : Agent} {later : Situation σ ω}
    (succeeds : L.setting.runAgent fuel (L.agent n) (L.situation n) =
      ((agent, some (.ok r)), later)) :
    ∃ k, n ≤ k ∧ L.report k = .finished ∧ (∀ m, n ≤ m → m < k → (L.report m).isFailed = false) ∧
      r = (L.agent (k + 1)).mainResult.getD .start := by
  induction fuel generalizing n with
  | zero => cases succeeds
  | succ fuel ih =>
      have goesOn (clean : (L.report n).isFailed = false)
          (rest : L.setting.runAgent fuel (L.agent (n + 1)) (L.situation (n + 1)) =
            ((agent, some (.ok r)), later)) :
          ∃ k, n ≤ k ∧ L.report k = .finished ∧
            (∀ m, n ≤ m → m < k → (L.report m).isFailed = false) ∧
            r = (L.agent (k + 1)).mainResult.getD .start := by
        obtain ⟨k, after, finished, unfailed, result⟩ := ih rest
        refine ⟨k, by omega, finished, fun m since before => ?_, result⟩
        rcases Nat.lt_or_eq_of_le since with further | rfl
        · exact unfailed m further before
        · exact clean
      cases reports : L.report n with
      | stepped =>
          simp only [Setting.runAgent, Exec.bind_apply, step_eq, reports] at succeeds
          exact goesOn (by rw [reports]; rfl) succeeds
      | phaseDone p s =>
          simp only [Setting.runAgent, Exec.bind_apply, step_eq, reports] at succeeds
          exact goesOn (by rw [reports]; rfl) succeeds
      | finished =>
          rw [runAgent_finished reports] at succeeds
          cases succeeds
          exact ⟨n, Nat.le_refl n, reports, fun m after before => by omega, rfl⟩
      | failed failure =>
          simp only [Setting.runAgent, Exec.bind_apply, step_eq, reports] at succeeds
          cases succeeds

private theorem unreported_of_finished (start : L.start = .start)
    (finished : L.report n = .finished)
    (unheld : (L.agent (n + 1)).mainResult = none) (m : Nat) (s : RunResult) :
    L.report m ≠ .phaseDone .main s := by
  intro reports
  by_cases early : m < n + 1
  · have kept := (mainResult_iff start (n + 1) s).mpr ⟨m, early, reports⟩
    rw [unheld] at kept
    cases kept
  · obtain ⟨empty, nothing⟩ := idle_of_finished start finished
    have later := (stays_finished empty nothing (show n ≤ m by omega)).1
    rw [later] at reports
    cases reports

/-- The result of a run is the one that the main phase has reported. Without one, the program has
no main module or the agent has failed before the run. -/
theorem result_of_runAgent (start : L.start = .start) {fuel : Nat} {agent : Agent}
    {later : Situation σ ω}
    (succeeds : L.setting.runAgent fuel (L.agent n) (L.situation n) =
      ((agent, some (.ok r)), later)) :
    (∃ m, L.report m = .phaseDone .main r) ∨
      r = .start ∧ (∀ m s, L.report m ≠ .phaseDone .main s) ∧
        (L.setting.program.main = none ∨ ∃ m, m < n ∧ (L.report m).isFailed = true) := by
  obtain ⟨k, after, finished, unfailed, result⟩ := runAgent_ok succeeds
  cases held : (L.agent (k + 1)).mainResult with
  | some s =>
      rw [held] at result
      obtain ⟨m, _, reports⟩ := (mainResult_iff start (k + 1) s).mp held
      exact .inl ⟨m, result ▸ reports⟩
  | none =>
      rw [held] at result
      have unreported := unreported_of_finished start finished held
      refine .inr ⟨result, unreported, ?_⟩
      by_cases failed : ∃ m, m < n ∧ (L.report m).isFailed = true
      · exact .inr failed
      · left
        have clean (m : Nat) (before : m < k) : (L.report m).isFailed = false := by
          by_cases early : m < n
          · exact Bool.eq_false_iff.mpr fun fails => failed ⟨m, early, fails⟩
          · exact unfailed m (by omega) before
        -- Otherwise the main phase would have been reported by the end.
        have noOpening : ¬ (L.setting.program.opening .main).isSome = true := by
          intro hasModule
          obtain ⟨m, s, _, reports⟩ := (reported_iff start finished clean .main).mpr hasModule
          exact unreported m s reports
        rw [Option.not_isSome_iff_eq_none] at noOpening
        exact Option.map_eq_none_iff.mp noOpening

end Life

/-- The life of an agent keeps to the order of its phases. -/
structure LifeCycle (L : Life σ ω) : Prop where
  ascends : ∀ m n, m ≤ n → (L.agent m).phase.rank ≤ (L.agent n).phase.rank
  ordered : ∀ m n p q r s, m < n → L.report m = .phaseDone p r → L.report n = .phaseDone q s →
    p.rank < q.rank
  complete : ∀ n, L.report n = .finished → (∀ m, m < n → (L.report m).isFailed = false) →
    ∀ p, (∃ m r, m < n ∧ L.report m = .phaseDone p r) ↔
      (L.setting.program.opening p).isSome = true
  -- What is reported is the outcome of the phase's frame, run alone from where it began.
  alone : ∀ n p r, L.report n = .phaseDone p r → ∃ m f kind, m ≤ n ∧
    (L.agent m).stack = .empty ∧ L.setting.program.opening p = some f ∧
    f.activation.substitution = .empty ∧ (f.activation.isMain = true ↔ p = .main) ∧
    L.setting.runStack (n - m + 1) ⟨[.module f], none⟩ (L.situation m) =
      ((⟨[], some ⟨kind, .ok r⟩⟩, true), L.situation (n + 1))
  fresh : ∀ n, (L.agent n).stack.isEmpty = true → L.report n = .finished ∨
    ∃ p f, L.setting.program.opening p = some f ∧
      L.setting.step (L.agent n) (L.situation n) =
        L.setting.advance { L.agent n with phase := p, stack := ⟨[.module f], none⟩ }
          (L.situation n)
  -- A run that succeeds, at any time, gives the result that the main phase reports. Only without a
  -- main module, or after a failure, there is none and the run gives the initial result.
  runs : ∀ n fuel agent r later,
    L.setting.runAgent fuel (L.agent n) (L.situation n) = ((agent, some (.ok r)), later) →
    (∃ m, L.report m = .phaseDone .main r) ∨
      r = .start ∧ (∀ m s, L.report m ≠ .phaseDone .main s) ∧
        (L.setting.program.main = none ∨ ∃ m, m < n ∧ (L.report m).isFailed = true)

theorem life_cycle (S : Setting σ ω) (situation : Situation σ ω) :
    LifeCycle ⟨S, .start, situation⟩ where
  ascends _ _ le := Life.rank_mono rfl le
  ordered _ _ _ _ _ _ before first second := Life.rank_lt_of_phaseDone rfl before first second
  complete _ finished unfailed := Life.reported_iff rfl finished unfailed
  alone n p r reports := by
    obtain ⟨f, m, kind, conducts, run, _⟩ := Life.conducts_of_phaseDone rfl reports
    exact ⟨m, f, kind, conducts.spans.ordered, conducts.began, conducts.opens,
      Program.opening_substitution conducts.opens, Program.opening_isMain conducts.opens, run⟩
  fresh n isEmpty := by
    let L : Life σ ω := ⟨S, .start, situation⟩
    cases busy : ((L.agent n).poised S.program).stack.isEmpty with
    | true =>
        left
        obtain ⟨_, nothing⟩ := Setting.pending_of_unpoised busy
        exact Life.report_finished isEmpty nothing
    | false =>
        right
        have empty : (L.agent n).stack = .empty := by
          rcases Life.sound (L := L) rfl n with empty | ⟨_, stillBusy⟩
          · exact empty
          · exact absurd (isEmpty.symm.trans stillBusy) Bool.noConfusion
        obtain ⟨p, f, conducts, enters⟩ := Life.conducts_here empty busy
        refine ⟨p, f, conducts.opens, ?_⟩
        rw [← enters]
        exact Setting.step_poised busy
  runs _ _ _ _ _ succeeds := Life.result_of_runAgent rfl succeeds

def dutiful : Life Simulation.World Simulation.Trace :=
  let act (name : String) := { Module.ofName name with
    rules := [.ofKind .ifThen .always [.perform name []]] }
  ⟨Simulation.setting ⟨[], some (act "prepare"), some (act "work"), none, none⟩ .linear false, .start,
    Simulation.situation {} ⟨Vector.replicate 8 0, 0⟩⟩

theorem life_cycle_of_dutiful :
    dutiful.report 14 = .finished ∧
      (∃ m r, m < 14 ∧ dutiful.report m = .phaseDone .init r) ∧
      (∃ m r, m < 14 ∧ dutiful.report m = .phaseDone .main r) ∧
      ¬ ∃ m r, m < 14 ∧ dutiful.report m = .phaseDone .shutdown r := by
  have finished : dutiful.report 14 = .finished :=
    Life.report_finished (by decide +kernel) (by decide +kernel)
  have unfailed : ∀ m, m < 14 → (dutiful.report m).isFailed = false := by decide +kernel
  have cycle : LifeCycle dutiful := life_cycle dutiful.setting dutiful.initial
  have reported := cycle.complete 14 finished unfailed
  refine ⟨finished, (reported .init).mpr rfl, (reported .main).mpr rfl, ?_⟩
  intro shutdown
  cases (reported .shutdown).mp shutdown

def misled : Life Simulation.World Simulation.Trace :=
  ⟨astray.setting, .start, Simulation.situation {} ⟨Vector.replicate 8 0, 0⟩⟩

/-- After its failure the agent runs again without one, and to the initial result, although it has a
main module, of which no result is ever reported. -/
theorem start_after_failure :
    misled.setting.program.main.isSome = true ∧ (misled.report 6).isFailed = true ∧
      (∀ m r, misled.report m ≠ .phaseDone .main r) ∧
      ∃ agent later, misled.setting.runAgent 1 (misled.agent 7) (misled.situation 7) =
        ((agent, some (.ok .start)), later) := by
  have finished : misled.report 7 = .finished := rfl
  have unheld : (misled.agent 8).mainResult = none := rfl
  refine ⟨rfl, by decide +kernel, Life.unreported_of_finished rfl finished unheld,
    misled.agent 8, misled.situation 8, ?_⟩
  rw [Life.runAgent_finished finished, unheld]
  rfl

end CognitiveAgent
