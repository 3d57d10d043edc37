import CognitiveAgent.Proofs.ExitScope
import CognitiveAgent.Proofs.Results

/-!
One turn of a history that does not fail. A plain action is performed; any other frame takes in
the result it has waited for, if it has waited for one, and then returns, leaves or pushes a
child. A frame's lifetime is the stretch of turns from the first one that it takes itself.
-/

set_option autoImplicit false

namespace CognitiveAgent

variable {σ ω : Type}

namespace RunResult

theorem start_merge (r : RunResult) : start.merge r = r := by
  obtain ⟨status, _, _⟩ := r
  cases status <;> rfl

end RunResult

namespace Frame

variable {f : Frame}

/-- Whether the frame does not hear that its child asks to stop: it has called a named module, or
it waits for an event pass. -/
def deaf : Frame → Bool
  | .action x => x.called == some false
  | .module g => g.strategy.waitsForEvents
  | .rule _ | .combo _ | .hole => false

def hears (f : Frame) (r : RunResult) : RunResult := if f.deaf then r.ofCall false else r

private theorem taken_some (waiting : f = .hole ∨ f.waits = true) (r : RunResult) :
    f.taken (some r) = f.result.merge (f.hears r) := by
  cases f with
  | hole => exact (RunResult.start_merge r).symm
  | module g =>
      rcases waiting with impossible | waits
      · cases impossible
      · exact StrategyState.absorb_result g.activation waits r
  | rule g =>
      rcases waiting with impossible | waits
      · cases impossible
      · exact if_pos waits
  | combo c =>
      rcases waiting with impossible | waits
      · cases impossible
      · exact if_pos waits
  | action x =>
      rcases waiting with impossible | waits
      · cases impossible
      · obtain ⟨anonymous, called⟩ := Option.isSome_iff_exists.mp waits
        have heard : (Frame.action x).hears r = r.ofCall anonymous := by
          simp only [hears, deaf, called]
          cases anonymous <;> rfl
        rw [heard]
        simp only [taken, called]
        exact (RunResult.start_merge _).symm

private theorem taken_none (idle : f.waits = false) : f.taken none = f.result := by
  cases f with
  | hole => rfl
  | module g => exact congrArg Activation.result (StrategyState.absorb_none _ _)
  | rule g => rfl
  | combo c => rfl
  | action x =>
      have called : x.called = none := Option.not_isSome_iff_eq_none.mp (Bool.eq_false_iff.mp idle)
      simp only [taken, called]
      rfl

theorem ne_hole_of_origin {g : Frame} (same : g.origin = f.origin) (solid : g ≠ .hole) :
    f ≠ .hole := by
  rintro rfl
  cases g with
  | hole => exact solid rfl
  | module g | rule g | combo c | action x => cases same

theorem origin_origin (f : Frame) : f.origin.origin = f.origin := by
  cases f <;> rfl

end Frame

namespace CallStack

/-- The result that waits for the top frame, unless it is a failure. -/
def given (stack : CallStack) : Option RunResult :=
  match stack.previous with
  | some ⟨_, .ok r⟩ => some r
  | _ => none

theorem exists_failure {stack : CallStack} (failed : stack.failed = true) :
    ∃ kind failure, stack.previous = some ⟨kind, .error failure⟩ := by
  unfold CallStack.failed result? at failed
  cases held : stack.previous with
  | none => rw [held] at failed; cases failed
  | some completed =>
      obtain ⟨kind, result⟩ := completed
      cases result with
      | ok r => rw [held] at failed; cases failed
      | error failure => exact ⟨kind, failure, rfl⟩

theorem given_of_previous {stack : CallStack} {completed : Completed}
    (held : stack.previous = some completed) (clean : stack.failed = false) :
    ∃ r, completed.result = .ok r ∧ stack.given = some r := by
  obtain ⟨kind, result⟩ := completed
  cases result with
  | error failure =>
      rw [failed, result?, held] at clean
      cases clean
  | ok r =>
      refine ⟨r, rfl, ?_⟩
      rw [given, held]

end CallStack

namespace Setting

variable (S : Setting σ ω)

theorem occurrences_of_empty {stack : CallStack} (empty : stack.frames = [])
    (situation : Situation σ ω) : S.occurrences stack situation = [] := by
  unfold occurrences pop
  rw [empty]
  rfl

theorem resume_given (f : Frame) {stack : CallStack} (clean : stack.failed = false) :
    S.resume f stack.previous = S.resumeWith f stack.given := by
  cases held : stack.previous with
  | none =>
      simp only [CallStack.given, held]
      rfl
  | some completed =>
      obtain ⟨r, result, given⟩ := CallStack.given_of_previous held clean
      rw [given]
      simp only [resume, result]

variable {S} {f : Frame} {below : List Frame} {stack : CallStack}

theorem Routed.nested (routed : S.Routed stack) (frames : stack.frames = f :: below)
    (solid : f ≠ .hole) : S.Nested (f :: below) := by
  cases routed with
  | ready nested idle =>
      obtain ⟨rfl, rfl⟩ := List.cons.inj frames
      exact nested
  | @returned g child rest holes left completed nested awaits bound =>
      cases left with
      | succ left => exact absurd (List.cons.inj frames).1.symm solid
      | zero =>
          obtain ⟨rfl, rfl⟩ := List.cons.inj frames
          exact nested
  | finished completed => cases frames

/-- A frame takes in what it finds in the slot, and finds something exactly when it waits. -/
theorem Routed.taken (routed : S.Routed stack) (frames : stack.frames = f :: below)
    (clean : stack.failed = false) :
    (f.waits = false ∧ stack.previous = none ∧ stack.given = none ∧
      f.taken stack.given = f.result) ∨
    ((f = .hole ∨ f.waits = true) ∧ ∃ r, stack.given = some r ∧
      f.taken stack.given = f.result.merge (f.hears r)) := by
  by_cases waiting : f = .hole ∨ f.waits = true
  · obtain ⟨completed, _, _, _, held, _⟩ := routed.exists_waiting frames waiting
    obtain ⟨r, _, given⟩ := CallStack.given_of_previous held clean
    refine .inr ⟨waiting, r, given, ?_⟩
    rw [given]
    exact Frame.taken_some waiting r
  · rw [not_or, Bool.not_eq_true] at waiting
    have vacant := routed.vacant frames waiting.1 waiting.2
    have given : stack.given = none := by rw [CallStack.given, vacant]
    refine .inl ⟨waiting.2, vacant, given, ?_⟩
    rw [given]
    exact Frame.taken_none waiting.2

end Setting

namespace History

variable {H : History σ ω} {n : Nat} {f later : Frame} {below : List Frame} {outcome : Outcome}

theorem stack_of_empty {m : Nat} (empty : (H.stack m).frames = []) (after : m ≤ n) :
    H.stack n = H.stack m := by
  induction after with
  | refl => rfl
  | step _ ih =>
      rw [← ih] at empty
      exact (stack_succ_of_empty empty).trans ih

/-! ### Failures -/

theorem Resumes.failed (resumes : H.Resumes n f below later outcome)
    (failed : (H.stack n).failed = true) : ∃ failure, outcome = .failed failure := by
  have returns := resumes.returns
  obtain ⟨kind, failure, held⟩ := CallStack.exists_failure failed
  rw [held] at returns
  exact ⟨failure, (Prod.mk.inj returns).2.symm⟩

/-- Nothing occurs while a failure passes through. -/
theorem Resumes.silent (resumes : H.Resumes n f below later outcome)
    (failed : (H.stack n).failed = true) : H.occurrences n = [] := by
  have logs : (H.setting.traced.resume f (H.stack n).previous).Logs fun _ seen => seen = [] := by
    obtain ⟨kind, failure, held⟩ := CallStack.exists_failure failed
    rw [held]
    exact Exec.logs_pure rfl
  exact resumes.occurs logs

theorem failed_succ (failed : (H.stack n).failed = true) : (H.stack (n + 1)).failed = true := by
  cases frames : (H.stack n).frames with
  | nil => rw [stack_succ_of_empty frames]; exact failed
  | cons f below =>
      obtain ⟨later, outcome, resumes⟩ := exists_resumes frames
      obtain ⟨failure, rfl⟩ := resumes.failed failed
      rw [resumes.stack_succ]
      rfl

theorem unfailed_of_le {m : Nat} (earlier : m ≤ n) (clean : (H.stack n).failed = false) :
    (H.stack m).failed = false := by
  induction earlier with
  | refl => exact clean
  | step _ ih =>
      refine ih (Bool.eq_false_iff.mpr fun failed => ?_)
      rw [failed_succ failed] at clean
      cases clean

theorem Completes.unfailed {r : RunResult} (completes : H.Completes n f below (.ok r)) :
    (H.stack (n + 1)).failed = false := by
  rw [completes.stack_succ]
  rfl

theorem Completes.frames {result : Except Failure RunResult}
    (completes : H.Completes n f below result) : (H.stack n).frames = f :: below := by
  obtain ⟨_, _, resumes, _⟩ := completes
  exact resumes.frames

theorem completes_of_given {r : RunResult} (frames : (H.stack n).frames = f :: below)
    (given : (H.stack (n + 1)).given = some r) : H.Completes n f below (.ok r) := by
  unfold CallStack.given at given
  split at given
  · rename_i kind result held
    cases given
    exact (completes_of_previous frames held).1
  · cases given

/-! ### Turns -/

def taken (H : History σ ω) (n : Nat) (f : Frame) : RunResult := f.taken (H.stack n).given

/-- The next turn is taken by the frame `f`, which stands on `below`, and leaves this stack. -/
inductive Turn (H : History σ ω) (n : Nat) : Frame → List Frame → CallStack → Prop where
  | acts {x : ActionFrame} {below : List Frame} {r : RunResult}
      (plain : (Frame.action x).isPlain = true)
      (deed : Setting.Deed x.action (.done r) (H.occurrences n)) :
      H.Turn n (.action x) below ⟨below, some ⟨.action, .ok r⟩⟩
  | returns {f : Frame} {below : List Frame} (other : f.isPlain = false) (solid : f.kind ≠ .module)
      (performs : ∀ o ∈ H.occurrences n, o.isPerform = false) :
      H.Turn n f below ⟨below, some ⟨f.kind, .ok (H.taken n f)⟩⟩
  | leaves {g : ModuleFrame} {below : List Frame} {stopped : Bool}
      (performs : ∀ o ∈ H.occurrences n, o.isPerform = false)
      (last : (polls (H.occurrences n)).getLast? = some stopped) :
      H.Turn n (.module g) below ⟨below, some ⟨.module,
        .ok ((H.taken n (.module g)).leaving stopped g.activation.module.anonymous)⟩⟩
  | waits {f later : Frame} (upper : List Frame) {below : List Frame} (other : f.isPlain = false)
      (performs : ∀ o ∈ H.occurrences n, o.isPerform = false) (same : later.origin = f.origin)
      (fresh : ∀ g ∈ upper, g.result = .start) (solid : f ≠ .hole)
      (goesOn : later.kind = .module → later.result.isRunning = true)
      (gathered : later.result = H.taken n f) :
      H.Turn n f below ⟨upper ++ later :: below, none⟩

theorem Resumes.passes (resumes : H.Resumes n f below later outcome)
    (clean : (H.stack n).failed = false) (other : f.isPlain = false) :
    f.Passes (H.taken n f) later outcome (H.occurrences n) := by
  have logs : (H.setting.traced.resume f (H.stack n).previous).Logs fun left seen =>
      f.Passes (H.taken n f) left.1 left.2 seen := by
    rw [Setting.resume_given _ f clean]
    exact H.setting.resumeWith_passes other _
  exact resumes.occurs logs

theorem Resumes.deed {x : ActionFrame} (resumes : H.Resumes n (.action x) below later outcome)
    (clean : (H.stack n).failed = false) (plain : (Frame.action x).isPlain = true) :
    Setting.Deed x.action outcome (H.occurrences n) := by
  have logs : (H.setting.traced.resume (.action x) (H.stack n).previous).Logs fun left seen =>
      Setting.Deed x.action left.2 seen := by
    rw [Setting.resume_given _ _ clean]
    exact H.setting.resumeWith_deed plain _
  exact resumes.occurs logs

theorem Resumes.conducts {g later : ModuleFrame}
    (resumes : H.Resumes n (.module g) below (.module later) outcome)
    (clean : (H.stack n).failed = false) :
    Setting.Conducts (H.taken n (.module g)) g.activation.module.anonymous later.activation.result
      outcome (H.occurrences n) := by
  have logs : (H.setting.traced.resume (.module g) (H.stack n).previous).Logs fun left seen =>
      Setting.Conducts (H.taken n (.module g)) g.activation.module.anonymous left.1.result left.2
        seen := by
    rw [Setting.resume_given _ _ clean]
    refine (H.setting.resumeModule_logs g _).bind fun left seen conducts => ?_
    refine Exec.logs_pure ?_
    rw [List.append_nil]
    exact conducts
  exact resumes.occurs logs

/-- All that a turn can do. -/
theorem turn (frames : (H.stack n).frames = f :: below)
    (clean : (H.stack (n + 1)).failed = false) : H.Turn n f below (H.stack (n + 1)) := by
  obtain ⟨later, outcome, resumes⟩ := exists_resumes frames
  have before := unfailed_of_le (Nat.le_succ n) clean
  obtain ⟨same, proper⟩ := resumes.proper
  rw [resumes.stack_succ] at clean ⊢
  cases plain : f.isPlain with
  | true =>
      cases f with
      | module g | rule g | combo c | hole => cases plain
      | action x =>
          have deed := resumes.deed before plain
          have kind : later.kind = .action := Frame.kind_eq_of_origin same
          cases outcome with
          | yield children => generalize x.action = action at deed; cases deed
          | failed failure => cases clean
          | done r =>
              rw [CallStack.settle, kind]
              exact .acts plain deed
  | false =>
      have passes := resumes.passes before plain
      have kind : later.kind = f.kind := Frame.kind_eq_of_origin same
      cases proper with
      | failed => cases clean
      | done _ r =>
          rw [CallStack.settle, kind]
          rcases passes.done r rfl with ⟨solid, rfl⟩ | ⟨g, stopped, rfl, last, rfl⟩
          · exact .returns plain solid passes.performs
          · exact .leaves passes.performs last
      | idle active nothing =>
          exact .waits [] plain passes.performs same (fun g member => by cases member)
            (Frame.ne_hole_of_origin same Frame.noConfusion) (fun _ => active.running)
            (passes.waits _ rfl)
      | @push _ child holes awaits =>
          rw [CallStack.settle_push, ← List.cons_append]
          refine .waits _ plain passes.performs same ?_
            (Frame.ne_hole_of_origin same awaits.ne_hole) ?_ (passes.waits _ rfl)
          · intro g member
            rcases List.mem_cons.mp member with rfl | hole
            · exact Frame.result_of_fresh awaits.child_origin
            · rw [List.eq_of_mem_replicate hole]
              rfl
          · intro isModule
            cases awaits with
            | rule active => exact active.running
            | ownCombo active => exact active.running
            | events active => exact active.running
            | module | action | combo => cases isModule

/-! ### Lifetimes -/

/-- The frame `f` takes its first turn as turn `first`, on the frames `below`, and is on the stack
up to the turn `last` at least. -/
structure Lifetime (H : History σ ω) (f : Frame) (below : List Frame) (first last : Nat) :
    Prop where
  fresh : f.origin = f
  opens : (H.stack first).frames = f :: below
  ordered : first ≤ last
  stays : ∀ i, first ≤ i → i ≤ last → below.length < (H.stack i).depth

private theorem lifetime_here {x : Frame} (fresh : x.origin = x)
    (frames : (H.stack n).frames = x :: below) : H.Lifetime x below n n := by
  refine ⟨fresh, frames, Nat.le_refl n, fun i after upTo => ?_⟩
  have here : i = n := by omega
  rw [here, CallStack.depth, frames]
  exact Nat.lt_succ_self _

/-- Every frame on a stack that began with one fresh frame has had a first turn. -/
theorem exists_lifetime {g x : Frame} (alone : H.start.frames = [g]) (fresh : g.origin = g)
    (suffix : (x :: below) <:+ (H.stack n).frames) (solid : x ≠ .hole) :
    ∃ first, H.Lifetime x.origin below first n := by
  induction n generalizing x with
  | zero =>
      have start : (x :: below) <:+ [g] := by rw [← alone]; exact suffix
      rcases List.suffix_cons_iff.mp start with same | held
      · obtain ⟨rfl, rfl⟩ := List.cons.inj same
        rw [fresh]
        exact ⟨0, lifetime_here fresh alone⟩
      · cases List.suffix_nil.mp held
  | succ n ih =>
      have bound : below.length < (H.stack (n + 1)).depth := suffix.length_le
      rcases pushes_or_stood suffix solid with ⟨_, _, _, _, push, shape⟩ | ⟨y, same, stood⟩
      · refine ⟨n + 1, lifetime_here x.origin_origin ?_⟩
        rw [push.stack_succ, CallStack.settle_push, shape]
      · have ySolid : y ≠ .hole := Frame.ne_hole_of_origin same.symm solid
        obtain ⟨first, lifetime⟩ := ih stood ySolid
        rw [same] at lifetime
        refine ⟨first, lifetime.fresh, lifetime.opens, Nat.le_succ_of_le lifetime.ordered, ?_⟩
        intro i after upTo
        by_cases last : i = n + 1
        · rw [last]; exact bound
        · exact lifetime.stays i after (by omega)

theorem Lifetime.upTo {first last : Nat} (lifetime : H.Lifetime f below first last)
    (after : first ≤ n) (before : n ≤ last) : H.Lifetime f below first n :=
  ⟨lifetime.fresh, lifetime.opens, after,
    fun i later bound => lifetime.stays i later (Nat.le_trans bound before)⟩

/-- A frame stands on what it stood on first as long as it is on the stack. -/
theorem Lifetime.exists_upper {first last : Nat} (lifetime : H.Lifetime f below first last)
    (after : first ≤ n) (upTo : n ≤ last) :
    ∃ upper x, (H.stack n).frames = upper ++ x :: below ∧ x.origin = f := by
  induction after with
  | refl => exact ⟨[], f, lifetime.opens, lifetime.fresh⟩
  | @step m after ih =>
      obtain ⟨upper, x, frames, same⟩ := ih (by omega)
      have deep := lifetime.stays (m + 1) (Nat.le_succ_of_le after) upTo
      cases upper with
      | nil =>
          obtain ⟨later, outcome, resumes⟩ := exists_resumes frames
          rw [CallStack.depth, resumes.stack_succ] at deep
          cases outcome with
          | yield children =>
              refine ⟨children.reverse, later, ?_, resumes.proper.1.trans same⟩
              rw [resumes.stack_succ]
              rfl
          | done r => exact absurd deep (Nat.lt_irrefl _)
          | failed failure => exact absurd deep (Nat.lt_irrefl _)
      | cons top upper =>
          rw [List.cons_append] at frames
          obtain ⟨later, outcome, resumes⟩ := exists_resumes frames
          obtain ⟨above, next⟩ := resumes.exists_above
          refine ⟨above ++ upper, x, ?_, same⟩
          rw [next, List.append_assoc]

theorem Lifetime.frames {first : Nat} (lifetime : H.Lifetime f below first n)
    (own : (H.stack n).depth = below.length + 1) :
    ∃ x, (H.stack n).frames = x :: below ∧ x.origin = f := by
  obtain ⟨upper, x, frames, same⟩ := lifetime.exists_upper lifetime.ordered (Nat.le_refl n)
  have none : upper = [] := by
    rw [CallStack.depth, frames, List.length_append, List.length_cons] at own
    exact List.length_eq_zero_iff.mp (by omega)
  rw [none] at frames
  exact ⟨x, frames, same⟩

end History

end CognitiveAgent
