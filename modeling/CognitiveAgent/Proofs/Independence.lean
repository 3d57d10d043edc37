import CognitiveAgent.Program.Construction
import CognitiveAgent.Proofs.Waiting
import CognitiveAgent.Simulation.Trace

/-!
A frame runs as if it were alone. Stepping over the top frame of a stack does what popping that
frame on a stack of its own does, and leaves the frames below it as they were.
-/

set_option autoImplicit false

namespace CognitiveAgent.Setting

variable {σ ω : Type} (S : Setting σ ω)

/-- Stepping over a frame and running it alone agree pop by pop, whether or not they end. -/
theorem stepOver_above (fuel : Nat) (f : Frame) (below : List Frame) (previous : Option Completed)
    (situation : Situation σ ω) :
    S.stepOver fuel ⟨f :: below, previous⟩ situation =
      (((S.runStack fuel ⟨[f], previous⟩ situation).1.1.above below,
        (S.runStack fuel ⟨[f], previous⟩ situation).1.2),
        (S.runStack fuel ⟨[f], previous⟩ situation).2) := by
  have agree (stack : CallStack) :
      ((stack.above below).isEmpty ||
        Decidable.decide ((stack.above below).depth < CallStack.depth ⟨f :: below, previous⟩)) =
        stack.isEmpty := by
    rw [CallStack.above_depth]
    obtain ⟨frames, outcome⟩ := stack
    cases frames with
    | nil =>
        have lower : 0 + below.length < below.length + 1 := by omega
        simp only [CallStack.depth, List.length_nil, List.length_cons, lower, decide_true,
          Bool.or_true]
        rfl
    | cons top rest =>
        have notLower : ¬rest.length + 1 + below.length < below.length + 1 := by omega
        simp only [CallStack.depth, List.length_cons, notLower, decide_false, Bool.or_false]
        rfl
  exact S.popUntil_above agree (fun _ empty => empty) fuel ⟨[f], previous⟩ situation rfl

/-- Popped in this situation, the stack comes to hold the frame alone, as its own resumptions have
left it. The next pop resumes it for the last time, with this result. -/
def EndsWith (stack : CallStack) (situation : Situation σ ω) (f : Frame)
    (result : Except Failure RunResult) (final : Situation σ ω) : Prop :=
  ∃ n last given before later outcome,
    History.after ⟨S, stack, situation⟩ n = (⟨[last], given⟩, before) ∧ last.origin = f.origin ∧
    S.resume last given before = ((later, outcome), final) ∧ outcome.result? = some result ∧
    History.after ⟨S, stack, situation⟩ (n + 1) = (⟨[], some ⟨f.kind, result⟩⟩, final)

theorem popUntil_succ (holds : CallStack → Bool) (fuel : Nat) (stack : CallStack)
    (situation : Situation σ ω) :
    S.popUntil holds (fuel + 1) stack situation =
      if holds (S.pop stack situation).1 then
        (((S.pop stack situation).1, true), (S.pop stack situation).2)
      else S.popUntil holds fuel (S.pop stack situation).1 (S.pop stack situation).2 := by
  simp only [popUntil, Exec.bind_apply]
  split <;> rfl

/-- A pop takes the bottom frame off the stack, or leaves it at the bottom. -/
theorem pop_bottom {stack : CallStack} {upper : List Frame} {f : Frame}
    (frames : stack.frames = upper ++ [f]) (situation : Situation σ ω) :
    (∃ later outcome result, upper = [] ∧
      S.resume f stack.previous situation = ((later, outcome), (S.pop stack situation).2) ∧
      outcome.result? = some result ∧
      (S.pop stack situation).1 = ⟨[], some ⟨f.kind, result⟩⟩) ∨
    ∃ others g, g.origin = f.origin ∧ (S.pop stack situation).1.frames = others ++ [g] := by
  obtain ⟨_, previous⟩ := stack
  change _ = upper ++ [f] at frames
  subst frames
  cases upper with
  | nil =>
      have left := S.resume_returns f previous situation
      rw [List.nil_append, pop_cons]
      cases resumed : S.resume f previous situation with
      | mk returned now =>
          obtain ⟨later, outcome⟩ := returned
          rw [resumed] at left
          have same : later.origin = f.origin := left.1
          cases final : outcome.result? with
          | none =>
              cases outcome with
              | yield children => exact .inr ⟨children.reverse, later, same, rfl⟩
              | done result => cases final
              | failed failure => cases final
          | some result =>
              have settled := CallStack.settle_result final [] later
              rw [Frame.kind_eq_of_origin same] at settled
              exact .inl ⟨later, outcome, result, rfl, rfl, final, settled⟩
  | cons top rest =>
      have above := S.pop_above ⟨top :: rest, previous⟩ [f] situation rfl
      refine .inr ⟨(S.pop ⟨top :: rest, previous⟩ situation).1.frames, f, rfl, ?_⟩
      exact congrArg (fun left => left.1.frames) above

/-- A stack that is run to its end ends with its bottom frame. -/
theorem runStack_ends (fuel : Nat) {stack alone : CallStack} {upper : List Frame} {f : Frame}
    {situation final : Situation σ ω} (frames : stack.frames = upper ++ [f])
    (ends : S.runStack fuel stack situation = ((alone, true), final)) :
    ∃ result, alone = ⟨[], some ⟨f.kind, result⟩⟩ ∧
      S.EndsWith stack situation f result final := by
  induction fuel generalizing stack upper f situation with
  | zero => cases ends
  | succ fuel ih =>
      unfold runStack at ends
      rw [popUntil_succ] at ends
      rcases S.pop_bottom frames situation with
        ⟨later, outcome, result, rfl, resumed, settled, left⟩ | ⟨others, g, same, stays⟩
      · have single : stack = ⟨[f], stack.previous⟩ := by
          obtain ⟨_, previous⟩ := stack
          exact congrArg (CallStack.mk · previous) frames
        have popped : S.pop stack situation =
            (⟨[], some ⟨f.kind, result⟩⟩, (S.pop stack situation).2) := Prod.ext left rfl
        rw [left] at ends
        cases ends
        refine ⟨result, rfl, 0, f, stack.previous, situation, later, outcome, ?_, rfl, resumed,
          settled, popped⟩
        exact congrArg (·, situation) single
      · have busy : (S.pop stack situation).1.isEmpty = false := by
          unfold CallStack.isEmpty
          rw [stays]
          cases others <;> rfl
        rw [busy] at ends
        obtain ⟨result, shape, n, last, given, before, later, outcome, reached, own, resumed,
          settled, gone⟩ := ih stays ends
        rw [Frame.kind_eq_of_origin same] at shape gone
        rw [← History.after_pop] at reached gone
        exact ⟨result, shape, n + 1, last, given, before, later, outcome, reached,
          own.trans same, resumed, settled, gone⟩

/-- Stepping over a frame ends exactly when running it alone does, after as many pops, with the
same outcome and in the same situation: the world, the record that an observer makes of all that
occurs, the random numbers and the entered modules. -/
theorem stepOver_independent (below : List Frame) (f : Frame) (previous : Option Completed)
    (situation : Situation σ ω) :
    (∀ fuel after final,
      S.stepOver fuel ⟨f :: below, previous⟩ situation = ((after, true), final) →
      after.frames = below ∧
      S.runStack fuel ⟨[f], previous⟩ situation = ((⟨[], after.previous⟩, true), final) ∧
      ∃ result, after.previous = some ⟨f.kind, result⟩ ∧
        S.EndsWith ⟨[f], previous⟩ situation f result final) ∧
    (∀ fuel alone final, S.runStack fuel ⟨[f], previous⟩ situation = ((alone, true), final) →
      S.stepOver fuel ⟨f :: below, previous⟩ situation =
        ((⟨below, alone.previous⟩, true), final)) := by
  have alone : CallStack.frames ⟨[f], previous⟩ = [] ++ [f] := rfl
  constructor
  · intro fuel after final ends
    rw [stepOver_above] at ends
    cases run : S.runStack fuel ⟨[f], previous⟩ situation with
    | mk returned now =>
        obtain ⟨stack, reached⟩ := returned
        rw [run] at ends
        cases ends
        obtain ⟨result, shape, last⟩ := S.runStack_ends fuel alone run
        subst stack
        exact ⟨rfl, rfl, result, rfl, last⟩
  · intro fuel stack final ends
    obtain ⟨result, shape, _⟩ := S.runStack_ends fuel alone ends
    rw [stepOver_above, ends, shape]
    rfl

def greeting : Frame :=
  .combo { combo := [.perform "wave" [], .perform "bow" []], substitution := .empty, focus := none,
           order := .linear }

/-- A combo of two actions above a hole takes five pops, and leaves the hole alone. -/
theorem stepOver_independent_of_greeting :
    let S := Simulation.setting ⟨[], none, none, none, none⟩ .linear true
    let situation := Simulation.situation {} ⟨Vector.replicate 8 0, 0⟩
    ∃ after alone final, S.stepOver 5 ⟨[greeting, .hole], none⟩ situation = ((after, true), final) ∧
      S.runStack 5 ⟨[greeting], none⟩ situation = ((alone, true), final) ∧
      after.frames = [.hole] ∧ alone.previous = after.previous ∧
      ∃ result, after.previous = some ⟨.combo, result⟩ ∧
        S.EndsWith ⟨[greeting], none⟩ situation greeting result final := by
  intro S situation
  have independent := stepOver_independent S [.hole] greeting none situation
  have ends : ∃ alone final, S.runStack 5 ⟨[greeting], none⟩ situation = ((alone, true), final) :=
    ⟨_, _, rfl⟩
  obtain ⟨alone, final, ends⟩ := ends
  have stepped := independent.2 5 alone final ends
  obtain ⟨frames, _, result, outcome, last⟩ := independent.1 5 _ final stepped
  exact ⟨_, alone, final, stepped, ends, frames, rfl, result, outcome, last⟩

end CognitiveAgent.Setting
