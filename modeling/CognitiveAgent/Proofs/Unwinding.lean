import CognitiveAgent.Program.Construction
import CognitiveAgent.Proofs.Pops
import CognitiveAgent.Run.Agent
import CognitiveAgent.Simulation.Trace

/-!
Failures. Once a frame has failed, every pop takes one frame off the stack and does nothing else,
until the stack is empty and holds the failure. An agent reports it once and is finished.
-/

set_option autoImplicit false

namespace CognitiveAgent

variable {σ ω : Type}

/-- An agent in a setting, with the situation from which its steps begin. -/
structure Life (σ ω : Type) where
  setting : Setting σ ω
  start : Agent
  initial : Situation σ ω

namespace Life

variable (L : Life σ ω)

def after : Nat → Agent × Situation σ ω
  | 0 => (L.start, L.initial)
  | n + 1 =>
    let stepped := L.setting.step (after n).1 (after n).2
    (stepped.1.1, stepped.2)

def agent (n : Nat) : Agent := (L.after n).1

def situation (n : Nat) : Situation σ ω := (L.after n).2

def report (n : Nat) : AgentStep := (L.setting.step (L.agent n) (L.situation n)).1.2

def rest : Life σ ω :=
  { L with start := L.agent 1, initial := L.situation 1 }

theorem after_succ (n : Nat) : L.after (n + 1) = L.rest.after n := by
  induction n with
  | zero => rfl
  | succ n ih =>
      have next : L.after (n + 2) =
          ((L.setting.step (L.after (n + 1)).1 (L.after (n + 1)).2).1.1,
            (L.setting.step (L.after (n + 1)).1 (L.after (n + 1)).2).2) := rfl
      rw [next, ih]
      rfl

private theorem report_succ (n : Nat) : L.report (n + 1) = L.rest.report n := by
  unfold report agent situation
  rw [after_succ]
  rfl

end Life

/-- The agent at the moment when a step pops its stack: with an empty stack, it has entered its
next phase. -/
def Agent.poised (agent : Agent) (program : Program) : Agent :=
  if agent.stack.isEmpty then (agent.enterPhase program).1 else agent

def Agent.stopped (agent : Agent) : Agent := { agent with stack := .empty, phase := .finished }

namespace Setting

variable (S : Setting σ ω)

private theorem pop_failure (f : Frame) (below : List Frame) (kind : FrameKind) (failure : Failure)
    (situation : Situation σ ω) :
    S.pop ⟨f :: below, some ⟨kind, .error failure⟩⟩ situation =
      (⟨below, some ⟨f.kind, .error failure⟩⟩, situation) := rfl

/-- The pop leaves a failure on these frames. -/
def Drops (stack : CallStack) (situation : Situation σ ω) (below : List Frame) (failure : Failure)
    (now : Situation σ ω) : Prop :=
  ∃ kind, S.pop stack situation = (⟨below, some ⟨kind, .error failure⟩⟩, now)

variable {S} {below : List Frame} {failure : Failure} {situation now : Situation σ ω}
variable {stack : CallStack} {agent : Agent}

theorem Drops.runStack (drops : S.Drops stack situation below failure now) {fuel : Nat}
    (enough : below.length < fuel) :
    ∃ kind, S.runStack fuel stack situation =
      ((⟨[], some ⟨kind, .error failure⟩⟩, true), now) := by
  induction below generalizing stack situation fuel with
  | nil =>
      obtain ⟨kind, reached⟩ := drops
      cases fuel with
      | zero => cases enough
      | succ fuel =>
          refine ⟨kind, ?_⟩
          simp only [Setting.runStack, popUntil, Exec.bind_apply, reached]
          rfl
  | cons f below ih =>
      obtain ⟨kind, reached⟩ := drops
      cases fuel with
      | zero => cases enough
      | succ fuel =>
          have next : S.Drops ⟨f :: below, some ⟨kind, .error failure⟩⟩ now below failure now :=
            ⟨f.kind, pop_failure S f below kind failure now⟩
          have fewer : below.length < fuel := by rw [List.length_cons] at enough; omega
          obtain ⟨last, finished⟩ := ih next fewer
          refine ⟨last, ?_⟩
          simp only [Setting.runStack, popUntil, Exec.bind_apply, reached]
          exact finished

/-! ### Agents -/

theorem step_poised (busy : (agent.poised S.program).stack.isEmpty = false) :
    S.step agent situation = S.advance (agent.poised S.program) situation := by
  unfold Agent.poised at busy ⊢
  unfold step
  cases empty : agent.stack.isEmpty with
  | false => rfl
  | true =>
      rw [empty] at busy
      simp only [if_true] at busy ⊢
      cases entered : agent.enterPhase S.program with
      | mk next opened =>
          rw [entered] at busy
          cases opened with
          | true => rfl
          | false =>
              -- Without a frame to push, the stack would still be empty.
              unfold Agent.enterPhase at entered
              dsimp only at entered
              split at entered
              · cases entered
              · cases entered
                rw [empty] at busy
                cases busy

private theorem Drops.step_last (busy : (agent.poised S.program).stack.isEmpty = false)
    (drops : S.Drops (agent.poised S.program).stack situation [] failure now) :
    S.step agent situation = (((agent.poised S.program).stopped, .failed failure), now) := by
  obtain ⟨kind, reached⟩ := drops
  rw [step_poised busy]
  simp only [advance, Exec.bind_apply, reached]
  rfl

private theorem Drops.step_on {f : Frame} (busy : (agent.poised S.program).stack.isEmpty = false)
    (drops : S.Drops (agent.poised S.program).stack situation (f :: below) failure now) :
    ∃ kind, S.step agent situation =
      (({ agent.poised S.program with stack := ⟨f :: below, some ⟨kind, .error failure⟩⟩ },
        .stepped), now) := by
  obtain ⟨kind, reached⟩ := drops
  refine ⟨kind, ?_⟩
  rw [step_poised busy]
  simp only [advance, Exec.bind_apply, reached]
  rfl

private theorem step_stopped (agent : Agent) (situation : Situation σ ω) :
    S.step agent.stopped situation = ((agent.stopped, .finished), situation) := rfl

theorem poised_of_busy {program : Program} (busy : agent.stack.isEmpty = false) :
    agent.poised program = agent := by
  unfold Agent.poised
  rw [busy]
  rfl

theorem Drops.runAgent (busy : (agent.poised S.program).stack.isEmpty = false)
    (drops : S.Drops (agent.poised S.program).stack situation below failure now) {fuel : Nat}
    (enough : below.length < fuel) :
    S.runAgent fuel agent situation =
      (((agent.poised S.program).stopped, some (.error failure)), now) := by
  induction below generalizing agent situation fuel with
  | nil =>
      cases fuel with
      | zero => cases enough
      | succ fuel =>
          simp only [Setting.runAgent, Exec.bind_apply, drops.step_last busy]
          rfl
  | cons f below ih =>
      cases fuel with
      | zero => cases enough
      | succ fuel =>
          obtain ⟨kind, stepped⟩ := drops.step_on busy
          have fewer : below.length < fuel := by rw [List.length_cons] at enough; omega
          let next : Agent := { agent.poised S.program with
            stack := ⟨f :: below, some ⟨kind, .error failure⟩⟩ }
          have poised : next.poised S.program = next := poised_of_busy rfl
          have onward : S.Drops (next.poised S.program).stack now below failure now := by
            rw [poised]
            exact ⟨f.kind, pop_failure S f below kind failure now⟩
          simp only [Setting.runAgent, Exec.bind_apply, stepped]
          have finished := ih (by rw [poised]; rfl) onward fewer
          rw [poised] at finished
          exact finished

end Setting

namespace Life

variable {L : Life σ ω} {below : List Frame} {failure : Failure} {now : Situation σ ω}

/-- A finished agent stays so, and nothing happens any more. -/
theorem stopped_for_ever {agent : Agent} (stopped : L.start = agent.stopped) (n : Nat) :
    L.after n = (agent.stopped, L.initial) ∧ L.report n = .finished := by
  have stays : L.after n = (agent.stopped, L.initial) := by
    induction n with
    | zero => rw [← stopped]; rfl
    | succ n ih =>
        have next : L.after (n + 1) =
            ((L.setting.step (L.after n).1 (L.after n).2).1.1,
              (L.setting.step (L.after n).1 (L.after n).2).2) := rfl
        rw [next, ih, Setting.step_stopped]
  refine ⟨stays, ?_⟩
  change (L.setting.step (L.after n).1 (L.after n).2).1.2 = .finished
  rw [stays, Setting.step_stopped]

private theorem first_step {next : Agent} {report : AgentStep}
    (stepped : L.setting.step L.start L.initial = ((next, report), now)) :
    L.report 0 = report ∧ L.rest.start = next ∧ L.rest.initial = now := by
  refine ⟨?_, ?_, ?_⟩
  · exact congrArg (fun left => left.1.2) stepped
  · exact congrArg (fun left => left.1.1) stepped
  · exact congrArg (fun left => left.2) stepped

/-- What becomes of an agent when the pop of its next step leaves a failure on `below`: it steps
once for each of these frames, reports the failure, and is finished. -/
theorem fails_once (busy : (L.start.poised L.setting.program).stack.isEmpty = false)
    (drops : L.setting.Drops (L.start.poised L.setting.program).stack L.initial below failure now) :
    (∀ count, count < below.length → L.report count = .stepped ∧
      L.situation (count + 1) = now ∧ (L.agent (count + 1)).stack.frames = below.drop count) ∧
    L.report below.length = .failed failure ∧
    ∀ count, below.length < count →
      L.after count = ((L.start.poised L.setting.program).stopped, now) ∧
      L.report count = .finished := by
  induction below generalizing L with
  | nil =>
      obtain ⟨reports, stopped, same⟩ := first_step (drops.step_last busy)
      refine ⟨fun count impossible => absurd impossible (Nat.not_lt_zero count), reports, ?_⟩
      intro count positive
      cases count with
      | zero => cases positive
      | succ count =>
          rw [after_succ, report_succ, ← same]
          exact stopped_for_ever stopped count
  | cons f below ih =>
      obtain ⟨kind, stepped⟩ := drops.step_on busy
      obtain ⟨firstReport, later, same⟩ := first_step stepped
      have stillBusy : L.rest.start.stack.isEmpty = false := by rw [later]; rfl
      have poised : L.rest.start.poised L.rest.setting.program = L.rest.start :=
        Setting.poised_of_busy stillBusy
      have next : L.rest.setting.Drops (L.rest.start.poised L.rest.setting.program).stack
          L.rest.initial below failure now := by
        rw [poised, later, same]
        exact ⟨f.kind, Setting.pop_failure _ f below kind failure now⟩
      obtain ⟨climbs, reports, finished⟩ := ih (by rw [poised]; exact stillBusy) next
      refine ⟨?_, ?_, ?_⟩
      · intro count bound
        cases count with
        | zero =>
            refine ⟨firstReport, same, ?_⟩
            change L.rest.start.stack.frames = _
            rw [later]
            rfl
        | succ count =>
            have shorter : count < below.length := by rw [List.length_cons] at bound; omega
            obtain ⟨report, unchanged, frames⟩ := climbs count shorter
            refine ⟨?_, ?_, ?_⟩
            · rw [report_succ]; exact report
            · unfold situation; rw [after_succ]; exact unchanged
            · unfold agent; rw [after_succ]; exact frames
      · rw [List.length_cons, report_succ]
        exact reports
      · intro count after
        cases count with
        | zero => cases after
        | succ count =>
            have shorter : below.length < count := by rw [List.length_cons] at after; omega
            rw [after_succ, report_succ]
            have rest := finished count shorter
            rw [poised, later] at rest
            exact rest

end Life

/-- An agent whose main module calls a module that does not exist, just before the call. -/
def astray : Life Simulation.World Simulation.Trace :=
  let main := { Module.ofName "main" with
    rules := [.ofKind .ifThen .always [.callNamed "missing" []]] }
  let L : Life Simulation.World Simulation.Trace :=
    ⟨Simulation.setting ⟨[], none, some main, none, none⟩ .linear true, .start,
      Simulation.situation {} ⟨Vector.replicate 8 0, 0⟩⟩
  { L with start := L.agent 3, initial := L.situation 3 }

end CognitiveAgent
