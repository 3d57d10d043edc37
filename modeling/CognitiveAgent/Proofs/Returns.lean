import CognitiveAgent.Proofs.Attempts
import CognitiveAgent.Proofs.Termination

/-!
Runs that may come to a resumption that never returns. What such a run reaches is what the history
of the stack, or the life of the agent, tells of it. Main statements: a run goes on past a turn in
which no variable reaches itself, neither in what the top frame holds nor in what is answered; a run
to an end returns nothing but what it would return if all its turns did, and if they all do, it
returns that.
-/

set_option autoImplicit false

namespace CognitiveAgent

variable {σ ω : Type}

/-! ### Steps that may be missing -/

/-- A run that is taken from one point to the next as long as there is a next one. -/
def Iterates {ρ : Type} (next : ρ → Option ρ) (run : Nat → Option ρ) : Prop :=
  ∀ n, run (n + 1) = (run n).bind next

namespace Iterates

variable {ρ : Type} {next : ρ → Option ρ} {run : Nat → Option ρ} {m n : Nat}

private theorem none_of_le (iterates : Iterates next run) (never : run m = none) (later : m ≤ n) :
    run n = none := by
  induction later with
  | refl => exact never
  | step _ ih =>
      rw [iterates, ih]
      rfl

theorem isSome_of_le (iterates : Iterates next run) (before : m ≤ n)
    (reached : (run n).isSome = true) : (run m).isSome = true := by
  cases earlier : run m with
  | none =>
      rw [iterates.none_of_le earlier before] at reached
      cases reached
  | some _ => rfl

theorem lt_of_reached (iterates : Iterates next run) (never : (run n).isNone = true)
    (reached : (run m).isSome = true) : m < n := by
  refine Nat.lt_of_not_le fun late => ?_
  rw [iterates.none_of_le (Option.isNone_iff_eq_none.mp never) late] at reached
  cases reached

/-- A run keeps to another one that takes the same steps, and never misses any. -/
theorem eq_some (iterates : Iterates next run) (full : Nat → ρ) (start : run 0 = some (full 0))
    (steps : ∀ n, next (full n) = none ∨ next (full n) = some (full (n + 1)))
    (reached : (run n).isSome = true) : run n = some (full n) := by
  induction n with
  | zero => exact start
  | succ n ih =>
      have before := ih (iterates.isSome_of_le (Nat.le_succ n) reached)
      rw [iterates, before, Option.bind_some] at reached ⊢
      rcases steps n with missing | step
      · rw [missing] at reached
        cases reached
      · exact step

end Iterates

/-! ### Histories -/

/-- Nothing is instantiated while a failure passes through. -/
theorem Setting.pop?_of_failed (S : Setting σ ω) {stack : CallStack} (failed : stack.failed = true)
    (situation : Situation σ ω) : S.pop? stack situation = some (S.pop stack situation) := by
  obtain ⟨kind, failure, held⟩ := CallStack.exists_failure failed
  obtain ⟨frames, previous⟩ := stack
  cases held
  cases frames <;> rfl

namespace History

variable {H : History σ ω} {m n : Nat}

/-- The stack and the situation after a number of pops, if all of them return. -/
def after? (H : History σ ω) : Nat → Option (CallStack × Situation σ ω)
  | 0 => some (H.start, H.initial)
  | n + 1 => (H.after? n).bind fun reached => H.setting.pop? reached.1 reached.2

def Returns (H : History σ ω) : Prop := ∀ n, (H.after? n).isSome = true

theorem iterates (H : History σ ω) :
    Iterates (fun reached => H.setting.pop? reached.1 reached.2) H.after? :=
  fun _ => rfl

theorem after?_of_isSome (returns : (H.after? n).isSome = true) :
    H.after? n = some (H.stack n, H.situation n) :=
  H.iterates.eq_some H.after rfl (fun n => H.setting.pop?_eq (H.stack n) (H.situation n)) returns

/-- The frame on top holds no variable that reaches itself, and the next turn answers with none. -/
structure Tame (H : History σ ω) (n : Nat) : Prop where
  held : ∀ f ∈ (H.stack n).frames.head?, ∀ s ∈ f.substitutions, s.Acyclic
  answers : ∀ o ∈ H.occurrences n, o.Tame

theorem after?_succ_of_pop? (reached : (H.after? n).isSome = true)
    (popped : H.setting.pop? (H.stack n) (H.situation n) =
      some (H.setting.pop (H.stack n) (H.situation n))) : (H.after? (n + 1)).isSome = true := by
  rw [after?, after?_of_isSome reached]
  exact Option.isSome_of_eq_some popped

theorem Tame.after?_succ (tame : H.Tame n) (reached : (H.after? n).isSome = true) :
    (H.after? (n + 1)).isSome = true :=
  after?_succ_of_pop? reached (H.setting.pop?_returns tame.held tame.answers)

end History

/-! ### Lives -/

namespace Setting

variable {S : Setting σ ω} {agent : Agent} {situation : Situation σ ω}

private theorem step?_poised (busy : (agent.poised S.program).stack.isEmpty = false) :
    S.step? agent situation = S.advance? (agent.poised S.program) situation := by
  unfold Agent.poised at busy ⊢
  unfold step?
  cases empty : agent.stack.isEmpty with
  | false => rfl
  | true =>
      rw [empty] at busy
      simp only [if_true] at busy ⊢
      cases next : agent.pending S.program with
      | nil =>
          rw [Agent.enterPhase_of_nil next] at busy
          have idle : agent.stack.isEmpty = false := busy
          rw [empty] at idle
          cases idle
      | cons phase rest =>
          obtain ⟨frame, _, enters, _⟩ := Agent.enterPhase_of_cons next
          rw [enters]

private theorem step?_of_idle (idle : (agent.poised S.program).stack.isEmpty = true) :
    S.step? agent situation = some (S.step agent situation) := by
  obtain ⟨empty, nothing⟩ := pending_of_unpoised idle
  rw [step_finished empty nothing]
  unfold step?
  rw [empty, Agent.enterPhase_of_nil nothing]
  rfl

private theorem step?_of_pop? (popped : S.pop? (agent.poised S.program).stack situation =
      some (S.pop (agent.poised S.program).stack situation)) :
    S.step? agent situation = some (S.step agent situation) := by
  cases idle : (agent.poised S.program).stack.isEmpty with
  | true => exact step?_of_idle idle
  | false =>
      rw [step?_poised idle, step_poised idle]
      change (S.pop? _ situation).bind _ = _
      rw [popped]
      simp only [advance, Exec.bind_apply, Option.bind_some]
      split <;> rfl

private theorem step?_eq (agent : Agent) (situation : Situation σ ω) :
    S.step? agent situation = none ∨ S.step? agent situation = some (S.step agent situation) := by
  rcases S.pop?_eq (agent.poised S.program).stack situation with never | popped
  · cases idle : (agent.poised S.program).stack.isEmpty with
    | true => exact .inr (step?_of_idle idle)
    | false =>
        left
        rw [step?_poised idle]
        change (S.pop? _ situation).bind _ = _
        rw [never]
        rfl
  · exact .inr (step?_of_pop? popped)

end Setting

namespace Life

variable {L : Life σ ω} {m n : Nat}

def after? (L : Life σ ω) : Nat → Option (Agent × Situation σ ω)
  | 0 => some (L.start, L.initial)
  | n + 1 => (L.after? n).bind fun reached =>
    (L.setting.step? reached.1 reached.2).map fun stepped => (stepped.1.1, stepped.2)

def Returns (L : Life σ ω) : Prop := ∀ n, (L.after? n).isSome = true

theorem iterates (L : Life σ ω) :
    Iterates (fun reached => (L.setting.step? reached.1 reached.2).map fun stepped =>
      (stepped.1.1, stepped.2)) L.after? :=
  fun _ => rfl

theorem after?_of_isSome (returns : (L.after? n).isSome = true) :
    L.after? n = some (L.agent n, L.situation n) := by
  refine L.iterates.eq_some L.after rfl (fun n => ?_) returns
  rcases Setting.step?_eq (S := L.setting) (L.agent n) (L.situation n) with never | stepped
  · exact .inl (Option.map_eq_none_iff.mpr never)
  · exact .inr (congrArg (Option.map _) stepped)

def Tame (L : Life σ ω) (n : Nat) : Prop := (L.pop n).Tame 0

theorem Tame.after?_succ (tame : L.Tame n) (reached : (L.after? n).isSome = true) :
    (L.after? (n + 1)).isSome = true := by
  have popped := L.setting.pop?_returns tame.held tame.answers
  rw [after?, after?_of_isSome reached, Option.bind_some, Option.isSome_map]
  exact Option.isSome_of_eq_some (Setting.step?_of_pop? popped)

end Life

/-! ### Runs to an end -/

namespace Attempt

variable {α β : Type}

/-- Whatever the attempt returns, the computation returns. -/
def Agrees (attempt : Attempt σ ω α) (computation : Exec σ ω α) : Prop :=
  ∀ s, attempt s = none ∨ attempt s = some (computation s)

private theorem agrees_pure (value : α) : Agrees (pure value : Attempt σ ω α) (pure value) :=
  fun _ => .inr rfl

private theorem Agrees.bind {attempt : Attempt σ ω α} {computation : Exec σ ω α}
    {next : α → Attempt σ ω β} {after : α → Exec σ ω β} (first : attempt.Agrees computation)
    (rest : ∀ value, (next value).Agrees (after value)) :
    Agrees (attempt >>= next) (computation >>= after) := by
  intro s
  rcases first s with never | returned
  · exact .inl (bind_of_none never next)
  · rw [bind_of_some returned, Exec.bind_apply]
    exact rest (computation s).1 (computation s).2

end Attempt

open Attempt (Agrees agrees_pure)

/-- The first pop, and those that follow it. -/
private theorem History.after?_next (H : History σ ω) (n : Nat) :
    H.after? (n + 1) = (H.setting.pop? H.start H.initial).bind fun left =>
      History.after? ⟨H.setting, left.1, left.2⟩ n := by
  induction n with
  | zero =>
      change H.setting.pop? H.start H.initial = _
      cases H.setting.pop? H.start H.initial <;> rfl
  | succ n ih =>
      rw [after?, ih, Option.bind_assoc]
      rfl

private theorem Life.after?_next (L : Life σ ω) (n : Nat) :
    L.after? (n + 1) = (L.setting.step? L.start L.initial).bind fun left =>
      Life.after? ⟨L.setting, left.1.1, left.2⟩ n := by
  induction n with
  | zero =>
      change (L.setting.step? L.start L.initial).map _ = _
      cases L.setting.step? L.start L.initial <;> rfl
  | succ n ih =>
      rw [after?, ih, Option.bind_assoc]
      rfl

namespace Setting

variable (S : Setting σ ω) (fuel : Nat)

private theorem popUntil?_agrees (holds : CallStack → Bool) (stack : CallStack) :
    Agrees (S.popUntil? holds fuel stack) (S.popUntil holds fuel stack) := by
  induction fuel generalizing stack with
  | zero => exact agrees_pure _
  | succ fuel ih =>
      have first : Agrees (S.pop? stack) (S.pop stack) := S.pop?_eq stack
      refine first.bind fun left => ?_
      cases holds left with
      | true => exact agrees_pure _
      | false => exact ih left

theorem runUntilDone?_agrees (stack : CallStack) :
    Agrees (S.runUntilDone? fuel stack) (S.runUntilDone fuel stack) := by
  refine (S.popUntil?_agrees fuel _ stack).bind fun left => ?_
  obtain ⟨left, done⟩ := left
  cases done <;> exact agrees_pure _

theorem stepOver?_agrees (stack : CallStack) :
    Agrees (S.stepOver? fuel stack) (S.stepOver fuel stack) :=
  S.popUntil?_agrees fuel _ stack

theorem runAgent?_agrees (agent : Agent) :
    Agrees (S.runAgent? fuel agent) (S.runAgent fuel agent) := by
  induction fuel generalizing agent with
  | zero => exact agrees_pure _
  | succ fuel ih =>
      have first : Agrees (S.step? agent) (S.step agent) := step?_eq agent
      refine first.bind fun left => ?_
      obtain ⟨later, report⟩ := left
      cases report with
      | finished | failed _ => exact agrees_pure _
      | stepped | phaseDone _ _ => exact ih later

variable {fuel} {situation : Situation σ ω}

private theorem popUntil?_returns (holds : CallStack → Bool) {stack : CallStack}
    (returns : (History.after? ⟨S, stack, situation⟩ fuel).isSome = true) :
    S.popUntil? holds fuel stack situation = some (S.popUntil holds fuel stack situation) := by
  induction fuel generalizing stack situation with
  | zero => rfl
  | succ fuel ih =>
      rw [History.after?_next] at returns
      rcases S.pop?_eq stack situation with never | popped
      · rw [never] at returns
        cases returns
      · rw [popped, Option.bind_some] at returns
        rw [popUntil?, Attempt.bind_of_some popped, popUntil, Exec.bind_apply]
        cases holds (S.pop stack situation).1 with
        | true => rfl
        | false => exact ih returns

theorem runUntilDone?_returns {stack : CallStack}
    (returns : (History.after? ⟨S, stack, situation⟩ fuel).isSome = true) :
    S.runUntilDone? fuel stack situation = some (S.runUntilDone fuel stack situation) := by
  have popped := S.popUntil?_returns (·.isEmpty) returns
  rw [runUntilDone?, Attempt.bind_of_some popped, runUntilDone, runStack, Exec.bind_apply]
  obtain ⟨⟨left, done⟩, now⟩ := S.popUntil (·.isEmpty) fuel stack situation
  cases done <;> rfl

theorem stepOver?_returns {stack : CallStack}
    (returns : (History.after? ⟨S, stack, situation⟩ fuel).isSome = true) :
    S.stepOver? fuel stack situation = some (S.stepOver fuel stack situation) :=
  S.popUntil?_returns _ returns

theorem runAgent?_returns {agent : Agent}
    (returns : (Life.after? ⟨S, agent, situation⟩ fuel).isSome = true) :
    S.runAgent? fuel agent situation = some (S.runAgent fuel agent situation) := by
  induction fuel generalizing agent situation with
  | zero => rfl
  | succ fuel ih =>
      rw [Life.after?_next] at returns
      rcases step?_eq (S := S) agent situation with never | stepped
      · rw [never] at returns
        cases returns
      · rw [stepped, Option.bind_some] at returns
        rw [runAgent?, Attempt.bind_of_some stepped, runAgent, Exec.bind_apply]
        generalize S.step agent situation = left at returns
        obtain ⟨⟨later, report⟩, now⟩ := left
        cases report with
        | finished | failed _ => rfl
        | stepped | phaseDone _ _ => exact ih returns

end Setting

end CognitiveAgent
