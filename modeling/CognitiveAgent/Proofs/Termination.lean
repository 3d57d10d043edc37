import CognitiveAgent.Proofs.Turns
import CognitiveAgent.Proofs.Unwinding

/-!
Stopping. While the signal to stop is given, a module that is resumed leaves or fails, so nothing
new is begun but what rules and combos that have begun have still to do. That is finite: each pop
lowers a weight of the stack. An agent whose stack is empty then takes one step for each phase that
is left, and no condition is evaluated any more.
-/

set_option autoImplicit false

namespace CognitiveAgent

variable {σ ω : Type}

namespace Frame

/-- A bound on the pops that a frame, and what it will push, can take, once modules only leave. For
a rule it depends on how many instantiations are left. -/
def weight : Frame → Nat
  | .module _ | .hole => 1
  | .action x => match x.called with
    | some _ => 1
    | none => 3
  | .combo c => match c.pending with
    | some rest => 4 * rest.length + 1
    | none => 4 * c.combo.length + 2
  | .rule g => match g.pending with
    | some rest => (4 * g.rule.combo.length + 3) * rest.length + 1
    | none => 1

/-- Whether the weight of the frame is known: no rule has still to be evaluated. -/
def settled : Frame → Bool
  | .rule g => g.pending.isSome
  | _ => true

private theorem weight_pos (f : Frame) : 0 < f.weight := by
  cases f with
  | module g | hole => exact Nat.one_pos
  | rule g => cases pending : g.pending <;> simp only [weight, pending] <;> omega
  | combo c => cases pending : c.pending <;> simp only [weight, pending] <;> omega
  | action x => cases called : x.called <;> simp only [weight, called] <;> omega

private theorem settled_of_waits {f : Frame} (waits : f.waits = true) : f.settled = true := by
  cases f with
  | rule g => exact waits
  | module g | combo c | action x | hole => rfl

def weigh : List Frame → Nat
  | [] => 0
  | f :: rest => f.weight + weigh rest

private theorem weigh_append (upper lower : List Frame) :
    weigh (upper ++ lower) = weigh upper + weigh lower := by
  induction upper with
  | nil => simp [weigh]
  | cons f upper ih => simp [weigh, ih, Nat.add_assoc]

private theorem weigh_reverse (frames : List Frame) : weigh frames.reverse = weigh frames := by
  induction frames with
  | nil => rfl
  | cons f rest ih =>
      rw [List.reverse_cons, weigh_append, ih]
      simp only [weigh]
      omega

def Lightens (f later : Frame) (outcome : Outcome) : Prop :=
  ∀ children, outcome = .yield children →
    later.settled = true ∧ (∀ g ∈ children, g.settled = true) ∧
      (f.settled = true → weigh children + later.weight < f.weight)

private theorem lightens_of_result {f later : Frame} {outcome : Outcome}
    {result : Except Failure RunResult} (final : outcome.result? = some result) :
    f.Lightens later outcome := by
  intro children yields
  subst yields
  cases final

end Frame

namespace Setting

variable (S : Setting σ ω)

private theorem next_lightens (c f : ComboFrame) (actions : List Action)
    (before : 4 * actions.length + 1 ≤ (Frame.combo c).weight) :
    (Frame.combo c).Lightens (.combo (f.next actions).1) (f.next actions).2 := by
  cases actions with
  | nil => exact Frame.lightens_of_result rfl
  | cons action rest =>
      intro children yields
      cases yields
      refine ⟨rfl, fun g member => by rw [List.mem_singleton.mp member]; rfl, fun _ => ?_⟩
      rw [List.length_cons] at before
      simp only [Frame.weigh, ComboFrame.next, Frame.weight] at before ⊢
      omega

private theorem combo_lightens (c : ComboFrame) (previous : Option RunResult) :
    (Frame.combo c).Lightens (.combo (c.resume previous).1) (c.resume previous).2 := by
  unfold ComboFrame.resume
  cases begun : c.pending with
  | none =>
      refine next_lightens c c c.combo ?_
      simp only [Frame.weight, begun]
      omega
  | some pending =>
      have before : 4 * pending.length + 1 ≤ (Frame.combo c).weight := by
        simp only [Frame.weight, begun]
        omega
      cases previous with
      | none => exact next_lightens c c pending before
      | some r =>
          dsimp only
          split
          · exact Frame.lightens_of_result rfl
          · exact next_lightens c _ pending before

private theorem fire_lightens (g f : RuleFrame) (same : f.rule = g.rule)
    (options : List Instantiation) (before : (Frame.rule g).settled = true →
      (4 * g.rule.combo.length + 3) * options.length + 1 ≤ (Frame.rule g).weight) :
    (S.fire f options).Returns fun left => (Frame.rule g).Lightens (.rule left.1) left.2 := by
  cases options with
  | nil => exact Exec.returns_pure (Frame.lightens_of_result rfl)
  | cons option rest =>
      refine (Exec.returns_any _).bind fun _ _ => Exec.returns_pure ?_
      intro children yields
      cases yields
      refine ⟨rfl, fun h member => by rw [List.mem_singleton.mp member]; rfl, fun known => ?_⟩
      have bound := before known
      rw [List.length_cons, Nat.mul_add, Nat.mul_one] at bound
      simp only [Frame.weigh, Frame.weight, same] at bound ⊢
      omega

private theorem resumeRule_lightens (g : RuleFrame) (previous : Option RunResult) :
    (S.resumeRule g previous).Returns fun left =>
      (Frame.rule g).Lightens (.rule left.1) left.2 := by
  unfold resumeRule
  cases begun : g.pending with
  | none =>
      have unknown : (Frame.rule g).settled = false := by
        simp only [Frame.settled, begun, Option.isSome_none]
      refine (Exec.returns_any _).bind fun answer _ => ?_
      cases answer with
      | error failure => exact Exec.returns_pure (Frame.lightens_of_result rfl)
      | ok options =>
          refine (Exec.returns_any _).bind fun arranged _ => ?_
          refine S.fire_lightens g g rfl arranged fun known => ?_
          rw [unknown] at known
          cases known
  | some pending =>
      have before (_ : (Frame.rule g).settled = true) :
          (4 * g.rule.combo.length + 3) * pending.length + 1 ≤ (Frame.rule g).weight := by
        simp only [Frame.weight, begun]
        omega
      cases previous with
      | none => exact S.fire_lightens g g rfl pending before
      | some r =>
          dsimp only
          split
          · exact Exec.returns_pure (Frame.lightens_of_result rfl)
          · refine S.fire_lightens g _ ?_ pending before
            rfl

private theorem resumeAction_lightens (x : ActionFrame) (previous : Option RunResult) :
    (S.resumeAction x previous).Returns fun left =>
      (Frame.action x).Lightens (.action left.1) left.2 := by
  unfold resumeAction
  cases called : x.called with
  | some anonymous => exact Exec.returns_pure (Frame.lightens_of_result rfl)
  | none =>
      dsimp only
      split
      · refine (S.performUser_returns _ _).bind fun outcome final => ?_
        exact Exec.returns_pure (Frame.lightens_of_result final.choose_spec)
      · refine (S.performMental_returns _).bind fun outcome final => ?_
        exact Exec.returns_pure (Frame.lightens_of_result final.choose_spec)
      · unfold expandCall
        split
        · exact Exec.returns_pure (Frame.lightens_of_result rfl)
        · split
          · exact Exec.returns_pure (Frame.lightens_of_result rfl)
          · refine (Exec.returns_any _).bind fun _ _ => Exec.returns_pure ?_
            intro children yields
            cases yields
            refine ⟨rfl, fun g member => by rw [List.mem_singleton.mp member]; rfl, fun _ => ?_⟩
            simp only [Frame.weigh, Frame.weight, called]
            omega

/-- Whatever is no module lightens the stack when it is resumed. -/
theorem resume_lightens {f : Frame} (other : f.kind ≠ .module) (previous : Option Completed) :
    (S.resume f previous).Returns fun left => f.Lightens left.1 left.2 := by
  have withResult (result : Option RunResult) :
      (S.resumeWith f result).Returns fun left => f.Lightens left.1 left.2 := by
    cases f with
    | module g => exact absurd rfl other
    | rule g =>
        refine (S.resumeRule_lightens g result).bind fun left lightens => ?_
        exact Exec.returns_pure lightens
    | combo c => exact Exec.returns_pure (combo_lightens c result)
    | action x =>
        refine (S.resumeAction_lightens x result).bind fun left lightens => ?_
        exact Exec.returns_pure lightens
    | hole => exact Exec.returns_pure (Frame.lightens_of_result rfl)
  unfold resume
  cases previous with
  | none => exact withResult none
  | some completed =>
      cases returned : completed.result with
      | error failure =>
          simp only [returned]
          exact Exec.returns_pure (Frame.lightens_of_result rfl)
      | ok result => simp only [returned]; exact withResult (some result)

theorem Nested.settled {S : Setting σ ω} {frames : List Frame} (nested : S.Nested frames) :
    ∀ g ∈ frames.tail, g.settled = true := by
  induction nested with
  | bottom f => intro g impossible; cases impossible
  | @above f top below holes under awaits ih =>
      intro g member
      rcases List.mem_append.mp member with hole | lower
      · rw [List.eq_of_mem_replicate hole]
        rfl
      · rcases List.mem_cons.mp lower with rfl | further
        · exact Frame.settled_of_waits awaits.waits
        · exact ih g further

theorem Routed.settled {S : Setting σ ω} {stack : CallStack} (routed : S.Routed stack) :
    ∀ g ∈ stack.frames.tail, g.settled = true := by
  cases routed with
  | ready nested idle => exact nested.settled
  | @returned f child below holes left completed nested awaits bound =>
      intro g member
      rcases List.mem_append.mp (List.mem_of_mem_tail member) with hole | lower
      · rw [List.eq_of_mem_replicate hole]
        rfl
      · rcases List.mem_cons.mp lower with rfl | further
        · exact Frame.settled_of_waits awaits.waits
        · exact nested.settled g further
  | finished completed => intro g impossible; cases impossible

end Setting

namespace History

variable {H : History σ ω} {n t : Nat} {f later : Frame} {below : List Frame} {outcome : Outcome}

/-- Whenever it is asked for in this turn, the signal to stop is there. -/
def Signalled (H : History σ ω) (n : Nat) : Prop :=
  ∀ answer ∈ polls (H.occurrences n), answer = true

/-- A module that is resumed while the signal to stop is given leaves with a hard stop, or fails. -/
theorem Resumes.heeds {M : ModuleFrame} (resumes : H.Resumes n (.module M) below later outcome)
    (signalled : H.Signalled n) :
    (∃ failure, outcome = .failed failure) ∨ ∃ r, outcome = .done r ∧ r.status = .hardStop := by
  cases failed : (H.stack n).failed with
  | true => exact .inl (resumes.failed failed)
  | false =>
      have same := resumes.proper.1
      cases later with
      | rule g | combo c | action x | hole => cases same
      | module left =>
          have conducts := resumes.conducts failed
          cases outcome with
          | failed failure => exact .inl ⟨failure, rfl⟩
          | done r =>
              obtain ⟨stopped, last, result⟩ := conducts.leaves r rfl
              refine .inr ⟨r, rfl, ?_⟩
              rw [result, signalled stopped (List.mem_of_getLast? last), RunResult.leaving_status]
              rfl
          | yield children =>
              -- It would have heard an answer, and a different one.
              obtain ⟨_, lowered⟩ := conducts.waits children rfl
              obtain ⟨_, asked⟩ := conducts.heeds children rfl
              obtain ⟨answer, heard⟩ := List.exists_mem_of_ne_nil _ asked
              rw [signalled answer heard] at heard
              exact absurd heard lowered

theorem Signalled.lightens (signalled : H.Signalled n) (routed : H.setting.Routed (H.stack n))
    (busy : (H.stack n).frames ≠ []) :
    (∀ g ∈ (H.stack (n + 1)).frames, g.settled = true) ∧
      ((∀ g ∈ (H.stack n).frames, g.settled = true) →
        Frame.weigh (H.stack (n + 1)).frames < Frame.weigh (H.stack n).frames) := by
  cases frames : (H.stack n).frames with
  | nil => exact absurd frames busy
  | cons f below =>
      have lower := routed.settled
      rw [frames] at lower
      obtain ⟨later, outcome, resumes⟩ := exists_resumes frames
      have lightens : f.Lightens later outcome := by
        by_cases isModule : f.kind = .module
        · cases f with
          | rule g | combo c | action x | hole => cases isModule
          | module M =>
              rcases resumes.heeds signalled with ⟨_, rfl⟩ | ⟨_, rfl, _⟩
              · exact Frame.lightens_of_result rfl
              · exact Frame.lightens_of_result rfl
        · have returned := H.setting.resume_lightens isModule (H.stack n).previous (H.situation n)
          rw [resumes.returns] at returned
          exact returned
      have gone (left : (H.stack (n + 1)).frames = below) :
          (∀ g ∈ (H.stack (n + 1)).frames, g.settled = true) ∧
            ((∀ g ∈ f :: below, g.settled = true) →
              Frame.weigh (H.stack (n + 1)).frames < Frame.weigh (f :: below)) := by
        rw [left]
        refine ⟨lower, fun _ => ?_⟩
        rw [Frame.weigh]
        have positive := f.weight_pos
        omega
      have next := resumes.stack_succ
      cases outcome with
      | done r => exact gone (congrArg CallStack.frames next)
      | failed failure => exact gone (congrArg CallStack.frames next)
      | yield children =>
          obtain ⟨known, others, lighter⟩ := lightens children rfl
          rw [next]
          refine ⟨fun g member => ?_, fun all => ?_⟩
          · rcases List.mem_append.mp member with child | standing
            · exact others g (List.mem_reverse.mp child)
            · rcases List.mem_cons.mp standing with rfl | under
              · exact known
              · exact lower g under
          · have less := lighter (all f List.mem_cons_self)
            rw [CallStack.settle, Frame.weigh_append, Frame.weigh_reverse]
            simp only [Frame.weigh]
            omega

private theorem Resumes.evaluates_nothing {M : ModuleFrame}
    (resumes : H.Resumes n (.module M) below later outcome) (signalled : H.Signalled n)
    (clean : (H.stack n).failed = false) : ∀ o ∈ H.occurrences n, o.isEvaluation = false := by
  have same := resumes.proper.1
  cases later with
  | rule g | combo c | action x | hole => cases same
  | module left =>
      intro o member
      refine Bool.eq_false_iff.mpr fun evaluates => ?_
      have lowered := (resumes.conducts clean).evaluates o member evaluates
      cases signalled false lowered

end History

/-! ### Agents -/

/-- What follows a phase among those to come does not depend on where they begin. -/
theorem Phase.remaining_after {p phase : Phase} {before after : List Phase}
    (split : p.remaining = before ++ phase :: after) : after = phase.next.remaining := by
  have proper : ∀ q : Phase, q.remaining ≠ [] → q.remaining = q :: q.next.remaining := by
    intro q some
    cases q with
    | finished => exact absurd rfl some
    | init | main | shutdown => rfl
  induction before generalizing p with
  | nil =>
      have same := proper p (by rw [split]; exact List.cons_ne_nil _ _)
      obtain ⟨rfl, rfl⟩ := List.cons.inj (split.symm.trans same)
      rfl
  | cons q before ih =>
      have same := proper p (by rw [split]; exact List.cons_ne_nil _ _)
      exact ih (List.cons.inj (same.symm.trans split)).2

namespace Agent

/-- The phases still to come that the program has a module for. -/
def pending (agent : Agent) (program : Program) : List Phase :=
  agent.phase.remaining.filter fun phase => (program.opening phase).isSome

/-- An agent's stack is empty, or outcomes on it are on their way. -/
def Sound (agent : Agent) (S : Setting σ ω) : Prop :=
  agent.stack = .empty ∨ (S.Routed agent.stack ∧ agent.stack.isEmpty = false)

theorem enterPhase_of_nil {agent : Agent} {program : Program}
    (nothing : agent.pending program = []) :
    agent.enterPhase program = ({ agent with phase := .finished }, false) := by
  have none : agent.phase.remaining.findSome? (fun phase =>
      (program.opening phase).map fun frame => (phase, frame)) = none := by
    rw [List.findSome?_eq_none_iff]
    intro phase member
    have closed := List.filter_eq_nil_iff.mp nothing phase member
    rw [Option.map_eq_none_iff]
    exact Option.not_isSome_iff_eq_none.mp closed
  unfold enterPhase
  rw [none]

theorem enterPhase_of_cons {agent : Agent} {program : Program} {phase : Phase} {rest : List Phase}
    (next : agent.pending program = phase :: rest) :
    ∃ frame, program.opening phase = some frame ∧
      agent.enterPhase program =
        ({ agent with phase, stack := agent.stack.push (.module frame) }, true) ∧
      phase.next.remaining.filter (fun phase => (program.opening phase).isSome) = rest := by
  obtain ⟨before, after, split, closed, opens, later⟩ := List.filter_eq_cons_iff.mp next
  obtain ⟨frame, opens⟩ := Option.isSome_iff_exists.mp opens
  have found : agent.phase.remaining.findSome? (fun phase =>
      (program.opening phase).map fun frame => (phase, frame)) = some (phase, frame) := by
    have skipped : before.findSome? (fun phase =>
        (program.opening phase).map fun frame => (phase, frame)) = none := by
      rw [List.findSome?_eq_none_iff]
      intro earlier member
      rw [Option.map_eq_none_iff]
      exact Option.not_isSome_iff_eq_none.mp (closed earlier member)
    rw [split, List.findSome?_append, skipped, List.findSome?_cons, opens]
    rfl
  refine ⟨frame, opens, ?_, ?_⟩
  · unfold enterPhase
    rw [found]
  · rw [← Phase.remaining_after split]
    exact later

end Agent

namespace Program

variable {p : Program} {phase : Phase} {frame : ModuleFrame}

/-- A phase begins with a frame that nothing is handed to. -/
theorem opening_cases (opens : p.opening phase = some frame) :
    ∃ m, frame = .start m .empty none none ∨ frame = .startMain m := by
  cases phase with
  | init | shutdown =>
      obtain ⟨m, _, rfl⟩ := Option.map_eq_some_iff.mp opens
      exact ⟨m, .inl rfl⟩
  | main =>
      obtain ⟨m, _, rfl⟩ := Option.map_eq_some_iff.mp opens
      exact ⟨m, .inr rfl⟩
  | finished => cases opens

theorem opening_fresh (opens : p.opening phase = some frame) : frame.Fresh := by
  obtain ⟨m, rfl | rfl⟩ := opening_cases opens
  · exact .start _ _ _ _
  · exact .startMain _

end Program

namespace Setting

variable {S : Setting σ ω} {agent : Agent} {situation : Situation σ ω}

theorem step_finished (empty : agent.stack.isEmpty = true)
    (nothing : agent.pending S.program = []) :
    S.step agent situation = (({ agent with phase := .finished }, .finished), situation) := by
  unfold step
  rw [empty, Agent.enterPhase_of_nil nothing]
  rfl

theorem pending_of_unpoised (idle : (agent.poised S.program).stack.isEmpty = true) :
    agent.stack.isEmpty = true ∧ agent.pending S.program = [] := by
  cases empty : agent.stack.isEmpty with
  | false =>
      rw [poised_of_busy empty, empty] at idle
      cases idle
  | true =>
      refine ⟨rfl, ?_⟩
      cases next : agent.pending S.program with
      | nil => rfl
      | cons phase rest =>
          obtain ⟨frame, _, enters, _⟩ := Agent.enterPhase_of_cons next
          rw [Agent.poised, empty, if_pos rfl, enters] at idle
          cases idle

private theorem step_occurrences :
    (S.traced.step agent situation.unseen).2.record =
      S.occurrences (agent.poised S.program).stack situation := by
  cases busy : (agent.poised S.program).stack.isEmpty with
  | false =>
      have alsoBusy : (agent.poised S.traced.program).stack.isEmpty = false := busy
      rw [step_poised alsoBusy]
      simp only [advance, Exec.bind_apply]
      split <;> rfl
  | true =>
      obtain ⟨empty, nothing⟩ := pending_of_unpoised busy
      have finished : agent.pending S.traced.program = [] := nothing
      rw [S.occurrences_of_empty (List.isEmpty_iff.mp busy), step_finished empty finished]
      rfl

def popped (S : Setting σ ω) (agent : Agent) (situation : Situation σ ω) : Agent :=
  { agent.poised S.program with stack := (S.pop (agent.poised S.program).stack situation).1 }

theorem step_closes (busy : (agent.poised S.program).stack.isEmpty = false)
    (empty : (S.popped agent situation).stack.isEmpty = true) :
    (S.step agent situation).1 = (S.popped agent situation).closePhase := by
  have reached : (S.pop (agent.poised S.program).stack situation).1.isEmpty = true := empty
  rw [step_poised busy]
  simp only [advance, Exec.bind_apply, reached, if_true]
  rfl

theorem step_goes_on (busy : (agent.poised S.program).stack.isEmpty = false)
    (more : (S.popped agent situation).stack.isEmpty = false) :
    (S.step agent situation).1 = (S.popped agent situation, .stepped) := by
  have left : (S.pop (agent.poised S.program).stack situation).1.isEmpty = false := more
  rw [step_poised busy]
  simp only [advance, Exec.bind_apply, left, Bool.false_eq_true, if_false]
  rfl

theorem closePhase_stack {agent : Agent} (empty : agent.stack.isEmpty = true) :
    agent.closePhase.1.stack = .empty := by
  unfold Agent.closePhase
  split
  · simp only [CallStack.dropResult, List.isEmpty_iff.mp empty]
    rfl
  · rfl

private theorem poised_sound (sound : agent.Sound S) : (agent.poised S.program).Sound S := by
  rcases sound with empty | ⟨routed, busy⟩
  · have isEmpty : agent.stack.isEmpty = true := by rw [empty]; rfl
    rw [Agent.poised, isEmpty, if_pos rfl]
    cases next : agent.pending S.program with
    | nil =>
        rw [Agent.enterPhase_of_nil next]
        exact .inl empty
    | cons phase rest =>
        obtain ⟨frame, opens, enters, _⟩ := Agent.enterPhase_of_cons next
        rw [enters]
        refine .inr ⟨?_, rfl⟩
        simp only [empty, CallStack.push, CallStack.empty]
        exact .ready (.bottom frame) (Program.opening_fresh opens).waits
  · rw [poised_of_busy busy]
    exact .inr ⟨routed, busy⟩

private theorem step_sound (sound : agent.Sound S) : (S.step agent situation).1.1.Sound S := by
  rcases poised_sound sound with empty | ⟨routed, busy⟩
  · have idle : (agent.poised S.program).stack.isEmpty = true := by rw [empty]; rfl
    obtain ⟨isEmpty, nothing⟩ := pending_of_unpoised idle
    rw [step_finished isEmpty nothing]
    rcases sound with empty | ⟨_, busy⟩
    · exact .inl empty
    · rw [isEmpty] at busy
      cases busy
  · cases left : (S.popped agent situation).stack.isEmpty with
    | true =>
        rw [step_closes busy left]
        exact .inl (closePhase_stack left)
    | false =>
        rw [step_goes_on busy left]
        exact .inr ⟨pop_routed routed situation, left⟩

end Setting

namespace Life

variable {L : Life σ ω} {n t : Nat}

def occurrences (L : Life σ ω) (n : Nat) : List Occurrence :=
  (L.setting.traced.step (L.agent n) (L.situation n).unseen).2.record

def Signalled (L : Life σ ω) (n : Nat) : Prop :=
  ∀ answer ∈ polls (L.occurrences n), answer = true

theorem agent_succ (n : Nat) :
    L.agent (n + 1) = (L.setting.step (L.agent n) (L.situation n)).1.1 := rfl

theorem sound (start : L.start = .start) (n : Nat) : (L.agent n).Sound L.setting := by
  induction n with
  | zero =>
      change L.start.Sound L.setting
      rw [start]
      exact .inl rfl
  | succ n ih => exact Setting.step_sound ih

def pop (L : Life σ ω) (n : Nat) : History σ ω :=
  ⟨L.setting, ((L.agent n).poised L.setting.program).stack, L.situation n⟩

theorem Signalled.pop (signalled : L.Signalled n) : (L.pop n).Signalled 0 := by
  unfold Signalled occurrences at signalled
  rw [Setting.step_occurrences] at signalled
  exact signalled

/-- How an agent comes to an end from a step on: one step for each of the phases, all of which end
with a hard stop, unless one of them fails. -/
inductive Closes (L : Life σ ω) : Nat → List Phase → Prop where
  | finished {m : Nat} (ends : ∀ n, m ≤ n → L.report n = .finished) : L.Closes m []
  | failed {m : Nat} {phase : Phase} {rest : List Phase} {failure : Failure}
      (fails : L.report m = .failed failure) (ends : ∀ n, m < n → L.report n = .finished) :
      L.Closes m (phase :: rest)
  | phaseDone {m : Nat} {phase : Phase} {rest : List Phase} {r : RunResult}
      (reports : L.report m = .phaseDone phase r) (stops : r.status = .hardStop)
      (later : L.Closes (m + 1) rest) : L.Closes m (phase :: rest)

inductive Shuts (L : Life σ ω) (n : Nat) : Prop where
  | finished (nothing : (L.agent n).pending L.setting.program = [])
      (reports : L.report n = .finished)
      (later : (L.agent (n + 1)).pending L.setting.program = [])
  | failed {phase : Phase} {rest : List Phase} {failure : Failure}
      (next : (L.agent n).pending L.setting.program = phase :: rest)
      (reports : L.report n = .failed failure)
      (later : (L.agent (n + 1)).pending L.setting.program = [])
  | phaseDone {phase : Phase} {rest : List Phase} {r : RunResult}
      (next : (L.agent n).pending L.setting.program = phase :: rest)
      (reports : L.report n = .phaseDone phase r) (stops : r.status = .hardStop)
      (later : (L.agent (n + 1)).pending L.setting.program = rest)

theorem occurrences_pop (n : Nat) : L.occurrences n = (L.pop n).occurrences 0 :=
  Setting.step_occurrences

private theorem shuts_finished (empty : (L.agent n).stack = .empty)
    (nothing : (L.agent n).pending L.setting.program = []) :
    L.report n = .finished ∧ (L.agent (n + 1)).pending L.setting.program = [] ∧
      (L.agent (n + 1)).stack = .empty ∧ L.occurrences n = [] := by
  have isEmpty : (L.agent n).stack.isEmpty = true := by rw [empty]; rfl
  have stepped : L.setting.step (L.agent n) (L.situation n) =
      (({ L.agent n with phase := .finished }, .finished), L.situation n) :=
    Setting.step_finished isEmpty nothing
  have later : L.agent (n + 1) = { L.agent n with phase := .finished } := by
    rw [agent_succ, stepped]
  have poised : ((L.agent n).poised L.setting.program).stack = .empty := by
    rw [Agent.poised, isEmpty, if_pos rfl, Agent.enterPhase_of_nil nothing]
    exact empty
  refine ⟨by rw [report, stepped], by rw [later]; rfl, by rw [later]; exact empty, ?_⟩
  rw [occurrences_pop]
  exact L.setting.occurrences_of_empty (congrArg CallStack.frames poised) _

/-- An agent without a stack and without a phase to come is finished for good. -/
theorem stays_finished {m : Nat} (empty : (L.agent m).stack = .empty)
    (nothing : (L.agent m).pending L.setting.program = []) (after : m ≤ n) :
    L.report n = .finished ∧ L.occurrences n = [] := by
  have still : (L.agent n).stack = .empty ∧ (L.agent n).pending L.setting.program = [] := by
    induction after with
    | refl => exact ⟨empty, nothing⟩
    | step _ ih =>
        obtain ⟨_, done, alsoEmpty, _⟩ := shuts_finished ih.1 ih.2
        exact ⟨alsoEmpty, done⟩
  obtain ⟨reports, _, _, quiet⟩ := shuts_finished still.1 still.2
  exact ⟨reports, quiet⟩

/-- The module of a phase that is entered while the signal to stop is given leaves at once, and the
phase is done, or it fails. -/
theorem shuts_phase (empty : (L.agent n).stack = .empty) (signalled : L.Signalled n)
    {phase : Phase} {rest : List Phase}
    (next : (L.agent n).pending L.setting.program = phase :: rest) :
    L.Shuts n ∧ (L.agent (n + 1)).stack = .empty ∧
      ∀ o ∈ L.occurrences n, o.isEvaluation = false := by
  obtain ⟨frame, opens, enters, afterwards⟩ := Agent.enterPhase_of_cons next
  have poised : (L.agent n).poised L.setting.program =
      { L.agent n with phase, stack := ⟨[.module frame], none⟩ } := by
    have isEmpty : (L.agent n).stack.isEmpty = true := by rw [empty]; rfl
    rw [Agent.poised, isEmpty, if_pos rfl, enters, empty]
    rfl
  have busy : ((L.agent n).poised L.setting.program).stack.isEmpty = false := by
    rw [poised]
    rfl
  have frames : ((L.pop n).stack 0).frames = [.module frame] :=
    congrArg (fun agent => agent.stack.frames) poised
  have clean : ((L.pop n).stack 0).failed = false :=
    congrArg (fun agent => agent.stack.failed) poised
  obtain ⟨left, outcome, resumes⟩ := History.exists_resumes frames
  have popped : L.setting.popped (L.agent n) (L.situation n) =
      { L.agent n with phase, stack := .settle [] left outcome } := by
    have settled : (L.setting.pop ((L.agent n).poised L.setting.program).stack
        (L.situation n)).1 = .settle [] left outcome := resumes.stack_succ
    rw [Setting.popped, settled, poised]
  have quiet := resumes.evaluates_nothing signalled.pop clean
  rw [← occurrences_pop] at quiet
  rcases resumes.heeds signalled.pop with ⟨failure, rfl⟩ | ⟨r, rfl, stops⟩
  · have stepped := Setting.step_closes busy (by rw [popped]; rfl)
    rw [popped] at stepped
    refine ⟨.failed next (by rw [report, stepped]; rfl) ?_, ?_, quiet⟩
    · rw [agent_succ, stepped]
      rfl
    · rw [agent_succ, stepped]
      rfl
  · have stepped := Setting.step_closes busy (by rw [popped]; rfl)
    rw [popped] at stepped
    refine ⟨.phaseDone next (by rw [report, stepped]; rfl) stops ?_, ?_, quiet⟩
    · rw [agent_succ, stepped]
      exact afterwards
    · rw [agent_succ, stepped]
      rfl

theorem shuts (empty : (L.agent n).stack = .empty) (signalled : L.Signalled n) :
    L.Shuts n ∧ (L.agent (n + 1)).stack = .empty ∧
      ∀ o ∈ L.occurrences n, o.isEvaluation = false := by
  cases next : (L.agent n).pending L.setting.program with
  | nil =>
      obtain ⟨reports, done, stillEmpty, nothing⟩ := shuts_finished empty next
      refine ⟨.finished next reports done, stillEmpty, ?_⟩
      rw [nothing]
      intro o impossible
      cases impossible
  | cons phase rest => exact shuts_phase empty signalled next

section Closing

variable {m : Nat} (signalled : ∀ n, m ≤ n → L.Signalled n) (empty : (L.agent m).stack = .empty)
include signalled empty

theorem closes : L.Closes m ((L.agent m).pending L.setting.program) := by
  generalize phases : (L.agent m).pending L.setting.program = pending
  induction pending generalizing m with
  | nil => exact .finished fun n after => (stays_finished empty phases after).1
  | cons phase rest ih =>
      have later (n : Nat) (after : m + 1 ≤ n) := signalled n (by omega)
      obtain ⟨shuts, stillEmpty, _⟩ := shuts empty (signalled m (Nat.le_refl m))
      cases shuts with
      | finished nothing => rw [phases] at nothing; cases nothing
      | failed next reports done =>
          exact .failed reports fun n after => (stays_finished stillEmpty done after).1
      | phaseDone next reports stops remaining =>
          rw [phases] at next
          obtain ⟨rfl, rfl⟩ := List.cons.inj next
          exact .phaseDone reports stops (ih later stillEmpty remaining)

end Closing

end Life

end CognitiveAgent
