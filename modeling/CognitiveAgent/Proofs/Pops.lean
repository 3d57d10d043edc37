import CognitiveAgent.Proofs.Exec
import CognitiveAgent.Run.CallStack

/-!
Stacks popped again and again. Only the top of a stack is ever touched: frames that lie below
wait unchanged, and popping goes on above them as if they were not there.
-/

set_option autoImplicit false

namespace CognitiveAgent

variable {σ ω : Type}

def Outcome.result? : Outcome → Option (Except Failure RunResult)
  | .yield _ => none
  | .done result => some (.ok result)
  | .failed failure => some (.error failure)

namespace CallStack

def above (stack : CallStack) (below : List Frame) : CallStack :=
  { stack with frames := stack.frames ++ below }

theorem above_depth (stack : CallStack) (below : List Frame) :
    (stack.above below).depth = stack.depth + below.length := by
  simp only [above, depth, List.length_append]

private theorem settle_above (rest below : List Frame) (f : Frame) (outcome : Outcome) :
    settle (rest ++ below) f outcome = (settle rest f outcome).above below := by
  cases outcome with
  | yield children => simp only [settle, above, List.append_assoc, List.cons_append]
  | done result => rfl
  | failed failure => rfl

theorem settle_push (below : List Frame) (f child : Frame) (holes : Nat) :
    settle below f (.yield (List.replicate holes .hole ++ [child])) =
      ⟨child :: (List.replicate holes .hole ++ f :: below), none⟩ := by
  simp only [settle, List.reverse_append, List.reverse_replicate, List.reverse_singleton,
    List.cons_append, List.nil_append]

theorem settle_result {outcome : Outcome} {result : Except Failure RunResult}
    (final : outcome.result? = some result) (below : List Frame) (f : Frame) :
    settle below f outcome = ⟨below, some ⟨f.kind, result⟩⟩ := by
  cases outcome with
  | yield children => cases final
  | done result => cases final; rfl
  | failed failure => cases final; rfl

end CallStack

namespace Setting

variable (S : Setting σ ω)

theorem pop_cons (top : Frame) (rest : List Frame) (previous : Option Completed)
    (situation : Situation σ ω) :
    S.pop ⟨top :: rest, previous⟩ situation =
      (.settle rest (S.resume top previous situation).1.1 (S.resume top previous situation).1.2,
        (S.resume top previous situation).2) := rfl

theorem pop_above (stack : CallStack) (below : List Frame) (situation : Situation σ ω)
    (busy : stack.isEmpty = false) :
    S.pop (stack.above below) situation =
      ((S.pop stack situation).1.above below, (S.pop stack situation).2) := by
  obtain ⟨frames, previous⟩ := stack
  cases frames with
  | nil => cases busy
  | cons top rest =>
      change S.pop ⟨top :: (rest ++ below), previous⟩ situation = _
      rw [pop_cons, pop_cons, CallStack.settle_above]

/-- Popping above other frames up to a condition is popping without them up to the same
condition, as long as that condition holds of the empty stack. -/
theorem popUntil_above {holds alone : CallStack → Bool} {below : List Frame}
    (agree : ∀ stack : CallStack, holds (stack.above below) = alone stack)
    (halts : ∀ stack : CallStack, stack.isEmpty = true → alone stack = true)
    (fuel : Nat) (stack : CallStack) (situation : Situation σ ω)
    (busy : stack.isEmpty = false) :
    S.popUntil holds fuel (stack.above below) situation =
      (((S.popUntil alone fuel stack situation).1.1.above below,
        (S.popUntil alone fuel stack situation).1.2),
        (S.popUntil alone fuel stack situation).2) := by
  induction fuel generalizing stack situation with
  | zero => rfl
  | succ fuel ih =>
      simp only [popUntil, Exec.bind_apply]
      rw [S.pop_above stack below situation busy]
      simp only [agree]
      cases reached : alone (S.pop stack situation).1 with
      | true => rfl
      | false =>
          have stillBusy : (S.pop stack situation).1.isEmpty = false := by
            cases emptied : (S.pop stack situation).1.isEmpty with
            | false => rfl
            | true => rw [halts _ emptied] at reached; cases reached
          exact ih _ _ stillBusy

end Setting

/-- A setting, with the stack and the situation from which popping begins. -/
structure History (σ ω : Type) where
  setting : Setting σ ω
  start : CallStack
  initial : Situation σ ω

namespace History

variable (H : History σ ω)

def after : Nat → CallStack × Situation σ ω
  | 0 => (H.start, H.initial)
  | n + 1 => H.setting.pop (after n).1 (after n).2

def stack (n : Nat) : CallStack := (H.after n).1

def situation (n : Nat) : Situation σ ω := (H.after n).2

/-- The pop that follows `n` others resumes `f`, which stands on `below`, and leaves it as
`later`. -/
structure Resumes (n : Nat) (f : Frame) (below : List Frame) (later : Frame)
    (outcome : Outcome) : Prop where
  frames : (H.stack n).frames = f :: below
  returns : (H.setting.resume f (H.stack n).previous (H.situation n)).1 = (later, outcome)

def Completes (n : Nat) (f : Frame) (below : List Frame)
    (result : Except Failure RunResult) : Prop :=
  ∃ later outcome, H.Resumes n f below later outcome ∧ outcome.result? = some result

variable {H} {n : Nat} {f later : Frame} {below : List Frame} {outcome : Outcome}

theorem exists_resumes (frames : (H.stack n).frames = f :: below) :
    ∃ later outcome, H.Resumes n f below later outcome :=
  ⟨_, _, frames, rfl⟩

theorem stack_eq (frames : (H.stack n).frames = f :: below) :
    H.stack n = ⟨f :: below, (H.stack n).previous⟩ := by
  rw [← frames]

theorem after_add (H : History σ ω) (m n : Nat) :
    H.after (m + n) = (⟨H.setting, H.stack m, H.situation m⟩ : History σ ω).after n := by
  induction n with
  | zero => rfl
  | succ n ih =>
      change H.setting.pop (H.after (m + n)).1 (H.after (m + n)).2 = _
      rw [ih]
      rfl

/-- The pops after the first one. -/
theorem after_pop (S : Setting σ ω) (stack : CallStack) (situation : Situation σ ω) (n : Nat) :
    History.after ⟨S, stack, situation⟩ (n + 1) =
      History.after ⟨S, (S.pop stack situation).1, (S.pop stack situation).2⟩ n := by
  rw [Nat.add_comm]
  exact after_add ⟨S, stack, situation⟩ 1 n

theorem after_succ (frames : (H.stack n).frames = f :: below) :
    H.after (n + 1) = H.setting.pop ⟨f :: below, (H.stack n).previous⟩ (H.situation n) := by
  rw [← stack_eq frames]
  rfl

theorem Resumes.stack_succ (resumes : H.Resumes n f below later outcome) :
    H.stack (n + 1) = .settle below later outcome := by
  unfold stack
  rw [after_succ resumes.frames, Setting.pop_cons, resumes.returns]

/-- A pop leaves alone what lies below the top frame. -/
theorem Resumes.exists_above (resumes : H.Resumes n f below later outcome) :
    ∃ above, (H.stack (n + 1)).frames = above ++ below := by
  rw [resumes.stack_succ]
  cases outcome with
  | yield children =>
      refine ⟨children.reverse ++ [later], ?_⟩
      rw [List.append_assoc]
      rfl
  | done result => exact ⟨[], rfl⟩
  | failed failure => exact ⟨[], rfl⟩

/-- An empty stack stays as it is. -/
theorem stack_succ_of_empty (empty : (H.stack n).frames = []) : H.stack (n + 1) = H.stack n := by
  change (H.setting.pop (H.stack n) (H.situation n)).1 = H.stack n
  unfold Setting.pop
  rw [empty]
  rfl

/-- What all frames have in common is kept by a pop if the frame that goes on keeps it and hands it
to its children. -/
theorem forall_frames_succ {holds : Frame → Prop}
    (step : ∀ f below later children, H.Resumes n f below later (.yield children) → holds f →
      holds later ∧ ∀ child ∈ children, holds child)
    (before : ∀ f ∈ (H.stack n).frames, holds f) : ∀ f ∈ (H.stack (n + 1)).frames, holds f := by
  cases frames : (H.stack n).frames with
  | nil =>
      rw [stack_succ_of_empty frames]
      exact before
  | cons f below =>
      rw [frames] at before
      have lower (g : Frame) (member : g ∈ below) : holds g :=
        before g (List.mem_cons_of_mem f member)
      obtain ⟨later, outcome, resumes⟩ := exists_resumes frames
      intro g member
      rw [resumes.stack_succ] at member
      cases outcome with
      | done | failed => exact lower g member
      | yield children =>
          obtain ⟨kept, handed⟩ := step f below later children resumes (before f List.mem_cons_self)
          rcases List.mem_append.mp member with above | member
          · exact handed g (List.mem_reverse.mp above)
          · rcases List.mem_cons.mp member with rfl | under
            · exact kept
            · exact lower g under

end History

end CognitiveAgent
