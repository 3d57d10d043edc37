import CognitiveAgent.Proofs.Turns

/-!
Results as records. What frames have gathered, together with the result on its way, tells exactly
whether something was done since the lowest of them was first resumed. So a frame that completes
reports a performed action if and only if one was performed in its lifetime.
-/

set_option autoImplicit false

namespace CognitiveAgent

variable {σ ω : Type}

/-- A mark of results that a merge collects and that does not depend on the status. -/
structure RunResult.Marks (mark : RunResult → Bool) : Prop where
  start : mark .start = false
  merge : ∀ r s, mark (r.merge s) = (mark r || mark s)
  status : ∀ r status, mark { r with status } = mark r

namespace RunResult

private theorem performedAction_marks :
    Marks performedAction := ⟨rfl, fun _ _ => rfl, fun _ _ => rfl⟩

private theorem performedRealAction_marks : Marks performedRealAction :=
  ⟨rfl, fun _ _ => rfl, fun _ _ => rfl⟩

namespace Marks

variable {mark : RunResult → Bool} (marks : Marks mark)
include marks

theorem hears (f : Frame) (r : RunResult) : mark (f.hears r) = mark r := by
  unfold Frame.hears
  split
  · exact marks.status r _
  · rfl

private theorem merge_stopped (r : RunResult) (status : RunStatus) :
    mark (r.merge (.stopped status)) = mark r := by
  have nothing : mark (.stopped status) = false := (marks.status .start status).trans marks.start
  rw [marks.merge, nothing, Bool.or_false]

theorem leaving (r : RunResult) (stopped anonymous : Bool) :
    mark (r.leaving stopped anonymous) = mark r := by
  unfold RunResult.leaving
  cases stopped <;> cases anonymous <;> simp only [marks.merge_stopped, if_true, if_false,
    Bool.false_eq_true]

end Marks

end RunResult

def carries (mark : RunResult → Bool) (frames : List Frame) (given : Option RunResult) : Bool :=
  frames.any (fun f => mark f.result) || given.any mark

namespace Setting

variable {S : Setting σ ω} {stack : CallStack} {mark : RunResult → Bool} {f : Frame}
variable {below : List Frame}

/-- A frame that takes in the result on its way takes the mark with it. -/
theorem Routed.mark_taken (routed : S.Routed stack) (frames : stack.frames = f :: below)
    (clean : stack.failed = false) (marks : RunResult.Marks mark) :
    mark (f.taken stack.given) = (mark f.result || stack.given.any mark) := by
  rcases routed.taken frames clean with ⟨_, _, given, taken⟩ | ⟨_, r, given, taken⟩
  · rw [taken, given, Option.any_none, Bool.or_false]
  · rw [taken, given, marks.merge, marks.hears, Option.any_some]

theorem Routed.calls {x : ActionFrame} (routed : S.Routed stack)
    (frames : stack.frames = .action x :: below) (called : x.called.isSome = true) :
    x.action.isCall = true := by
  cases routed with
  | ready nested idle =>
      obtain ⟨rfl, rfl⟩ := List.cons.inj frames
      rw [Frame.waits, called] at idle
      cases idle
  | @returned f child rest holes left completed nested awaits bound =>
      cases left with
      | succ left => cases (List.cons.inj frames).1
      | zero =>
          obtain ⟨rfl, rfl⟩ := List.cons.inj frames
          cases awaits with
          | module isCall => rw [isCall]; rfl
  | finished completed => cases frames

end Setting

namespace History

variable {H : History σ ω} {n first : Nat} {f : Frame} {below : List Frame}
variable {mark : RunResult → Bool} {acts : Nat → Prop}

/-- What `mark` says of plain actions is whether they act, and nothing else acts. -/
structure Records (H : History σ ω) (mark : RunResult → Bool) (acts : Nat → Prop) : Prop where
  marks : RunResult.Marks mark
  plain : ∀ n (x : ActionFrame) (below : List Frame) (r : RunResult),
    (H.stack n).frames = .action x :: below → H.stack (n + 1) = ⟨below, some ⟨.action, .ok r⟩⟩ →
    Setting.Deed x.action (.done r) (H.occurrences n) → (mark r = true ↔ acts n)
  other : ∀ n (f : Frame) (below : List Frame),
    (H.stack n).frames = f :: below → f.isPlain = false →
    (∀ o ∈ H.occurrences n, o.isPerform = false) → ¬ acts n

private theorem taken_of_plain {x : ActionFrame} (plain : (Frame.action x).isPlain = true)
    (n : Nat) :
    H.taken n (.action x) = .start := by
  rw [Frame.isPlain, Bool.and_eq_true] at plain
  have called : x.called = none := Option.isNone_iff_eq_none.mp plain.1
  simp only [taken, Frame.taken, called]

/-- One turn carries the mark on, and adds to it what the turn does. -/
theorem Records.step (records : H.Records mark acts) (routed : H.setting.Routed (H.stack n))
    (clean : (H.stack (n + 1)).failed = false) {upper : List Frame}
    (frames : (H.stack n).frames = f :: (upper ++ below)) :
    ∃ next, (H.stack (n + 1)).frames = next ++ below ∧
      (carries mark next (H.stack (n + 1)).given = true ↔
        carries mark (f :: upper) (H.stack n).given = true ∨ acts n) := by
  have before := unfailed_of_le (Nat.le_succ n) clean
  have marks := records.marks
  -- The frame on top takes in the slot, so together they carry what it has gathered then.
  have held : carries mark (f :: upper) (H.stack n).given =
      (upper.any (fun g => mark g.result) || mark (H.taken n f)) := by
    rw [taken, routed.mark_taken frames before marks, carries, List.any_cons, Bool.or_right_comm,
      Bool.or_comm]
  have returned (kind : FrameKind) (r : RunResult) :
      carries mark upper (CallStack.given ⟨upper ++ below, some ⟨kind, .ok r⟩⟩) =
        (upper.any (fun g => mark g.result) || mark r) := rfl
  have still (other : f.isPlain = false) (performs : ∀ o ∈ H.occurrences n, o.isPerform = false)
      {now : Bool} (same : now = (upper.any (fun g => mark g.result) || mark (H.taken n f))) :
      now = true ↔ carries mark (f :: upper) (H.stack n).given = true ∨ acts n := by
    rw [held, same, or_iff_left (records.other n f _ frames other performs)]
  have turn := turn frames clean
  generalize next : H.stack (n + 1) = stack at turn ⊢
  cases turn with
  | @acts x _ r plain deed =>
      refine ⟨upper, rfl, ?_⟩
      rw [held, taken_of_plain plain, marks.start, returned, Bool.or_false, Bool.or_eq_true,
        records.plain n x _ r frames next deed]
  | returns other solid performs =>
      exact ⟨upper, rfl, still other performs (returned _ _)⟩
  | leaves performs last =>
      refine ⟨upper, rfl, still rfl performs ?_⟩
      rw [returned, marks.leaving]
  | @waits _ later added _ other performs _ fresh _ _ gathered =>
      refine ⟨added ++ later :: upper, by rw [List.append_assoc, List.cons_append],
        still other performs ?_⟩
      have nothing : added.any (fun g => mark g.result) = false := by
        rw [List.any_eq_false]
        intro g member
        rw [fresh g member, Bool.not_eq_true]
        exact marks.start
      simp only [carries, CallStack.given, List.any_append, List.any_cons, nothing, gathered,
        Option.any_none, Bool.false_or, Bool.or_false]
      exact Bool.or_comm _ _

/-- From the first turn of a frame on, the frame and those above it carry the mark exactly if
something was done since. -/
theorem Records.run (records : H.Records mark acts) (routed : ∀ i, H.setting.Routed (H.stack i))
    {last : Nat} (lifetime : H.Lifetime f below first last) (after : first ≤ n)
    (upTo : n ≤ last + 1) (solid : f ≠ .hole) (clean : (H.stack n).failed = false) :
    ∃ upper, (H.stack n).frames = upper ++ below ∧
      (carries mark upper (H.stack n).given = true ↔ ∃ k, first ≤ k ∧ k < n ∧ acts k) := by
  induction after with
  | refl =>
      refine ⟨[f], lifetime.opens, ?_⟩
      have idle := Frame.waits_of_fresh lifetime.fresh
      have vacant := (routed first).vacant lifetime.opens solid idle
      have nothing : carries mark [f] (H.stack first).given = false := by
        simp only [carries, CallStack.given, vacant, List.any_cons, List.any_nil, Option.any_none,
          Frame.result_of_fresh lifetime.fresh, records.marks.start, Bool.or_false]
      rw [nothing]
      constructor
      · intro impossible
        cases impossible
      · rintro ⟨k, later, earlier, _⟩
        omega
  | @step m after ih =>
      obtain ⟨upper, frames, exact'⟩ := ih (by omega) (unfailed_of_le (Nat.le_succ m) clean)
      have deep := lifetime.stays m after (by omega)
      cases upper with
      | nil =>
          rw [CallStack.depth, frames] at deep
          exact absurd deep (Nat.lt_irrefl _)
      | cons top upper =>
          rw [List.cons_append] at frames
          obtain ⟨next, shape, carried⟩ := records.step (routed m) clean frames
          refine ⟨next, shape, ?_⟩
          rw [carried, exact']
          constructor
          · rintro (⟨k, later, earlier, acted⟩ | acted)
            · exact ⟨k, later, Nat.lt_succ_of_lt earlier, acted⟩
            · exact ⟨m, after, Nat.lt_succ_self m, acted⟩
          · rintro ⟨k, later, earlier, acted⟩
            rcases Nat.lt_succ_iff_lt_or_eq.mp earlier with before | rfl
            · exact .inl ⟨k, later, before, acted⟩
            · exact .inr acted

/-- A frame that completes reports the mark exactly if something was done in its lifetime. -/
theorem Records.completes (records : H.Records mark acts)
    (routed : ∀ i, H.setting.Routed (H.stack i)) {g : Frame} {r : RunResult}
    (lifetime : H.Lifetime g below first n) (solid : g ≠ .hole)
    (completes : H.Completes n f below (.ok r)) :
    mark r = true ↔ ∃ k, first ≤ k ∧ k ≤ n ∧ acts k := by
  obtain ⟨upper, frames, carried⟩ := records.run routed lifetime
    (Nat.le_succ_of_le lifetime.ordered) (Nat.le_refl _) solid completes.unfailed
  rw [completes.stack_succ] at frames carried
  have empty : upper = [] := List.append_left_eq_self.mp frames.symm
  subst empty
  have same : mark r = carries mark [] (CallStack.given ⟨below, some ⟨f.kind, .ok r⟩⟩) := rfl
  rw [same, carried]
  constructor
  · rintro ⟨k, later, earlier, acted⟩
    exact ⟨k, later, Nat.le_of_lt_succ earlier, acted⟩
  · rintro ⟨k, later, earlier, acted⟩
    exact ⟨k, later, Nat.lt_succ_of_le earlier, acted⟩

def Performs (H : History σ ω) (n : Nat) : Prop := ∃ o ∈ H.occurrences n, o.isPerform = true

/-- The turn that follows `n` others executes an action: a mental one, or one of the user's that
is not skipped. -/
def Executes (H : History σ ω) (n : Nat) : Prop :=
  ∃ (x : ActionFrame) (below : List Frame) (r : RunResult),
    H.Completes n (.action x) below (.ok r) ∧
      ((∃ action, x.action = .mental action) ∨ (∃ action, x.action = .user action) ∧ H.Performs n)

private theorem not_performs (performs : ∀ o ∈ H.occurrences n, o.isPerform = false) :
    ¬ H.Performs n := by
  rintro ⟨o, member, performed⟩
  rw [performs o member] at performed
  cases performed

private theorem performs_records : H.Records RunResult.performedRealAction H.Performs := by
  refine ⟨RunResult.performedRealAction_marks, ?_, fun n f below _ _ => not_performs⟩
  intro n x below r _ _ deed
  generalize x.action = action at deed
  cases deed with
  | skipped performs => exact iff_of_false Bool.noConfusion (not_performs performs)
  | performed performs => exact iff_of_true rfl performs
  | minded asks performs => exact iff_of_false Bool.noConfusion (not_performs performs)

private theorem executes_records (routed : ∀ i, H.setting.Routed (H.stack i)) :
    H.Records RunResult.performedAction H.Executes := by
  refine ⟨RunResult.performedAction_marks, ?_, ?_⟩
  · intro n x below r frames next deed
    have completes : H.Completes n (.action x) below (.ok r) :=
      (completes_of_previous frames (congrArg CallStack.previous next)).1
    generalize planned : x.action = action at deed
    cases deed with
    | skipped performs =>
        refine iff_of_false Bool.noConfusion ?_
        rintro ⟨y, _, _, finished, mental | user⟩
        · have same : x = y :=
            Frame.action.inj (List.cons.inj (frames.symm.trans finished.frames)).1
          obtain ⟨_, mental⟩ := mental
          rw [← same, planned] at mental
          cases mental
        · exact not_performs performs user.2
    | performed performs =>
        exact iff_of_true rfl ⟨x, _, _, completes, .inr ⟨⟨_, planned⟩, performs⟩⟩
    | minded asks performs => exact iff_of_true rfl ⟨x, _, _, completes, .inl ⟨_, planned⟩⟩
  · intro n f below frames other performs
    rintro ⟨x, _, r, completes, mental | user⟩
    · obtain ⟨rfl, rfl⟩ := List.cons.inj (frames.symm.trans completes.frames)
      obtain ⟨action, mental⟩ := mental
      cases called : x.called with
      | none =>
          rw [Frame.isPlain, called, mental] at other
          cases other
      | some anonymous =>
          have isCall := (routed n).calls frames (by rw [called]; rfl)
          rw [mental] at isCall
          cases isCall
    · exact not_performs performs user.2

/-- Whatever asks the environment to perform something executes an action of the user's. -/
theorem Performs.executes (performs : H.Performs n) (frames : (H.stack n).frames = f :: below)
    (clean : (H.stack (n + 1)).failed = false) : H.Executes n := by
  have turn := turn frames clean
  generalize next : H.stack (n + 1) = stack at turn
  cases turn with
  | @acts x _ r plain deed =>
      have completes : H.Completes n (.action x) below (.ok r) :=
        (completes_of_previous frames (congrArg CallStack.previous next)).1
      generalize planned : x.action = action at deed
      cases deed with
      | skipped none => exact absurd performs (not_performs none)
      | performed _ => exact ⟨x, _, _, completes, .inr ⟨⟨_, planned⟩, performs⟩⟩
      | minded asks _ => exact ⟨x, _, _, completes, .inl ⟨_, planned⟩⟩
  | returns other solid none => exact absurd performs (not_performs none)
  | leaves none last => exact absurd performs (not_performs none)
  | waits _ other none => exact absurd performs (not_performs none)

/-- Results are exact records. A frame that completes has had a first turn, and it reports a real
action exactly if the environment was asked to perform something from that turn on, and an action
exactly if one was executed from that turn on, in whatever module. -/
theorem result_exact (S : Setting σ ω) {f : ModuleFrame} (fresh : f.Fresh)
    (situation : Situation σ ω) {n : Nat} {last : Frame} {below : List Frame} {r : RunResult}
    (completes : (ofModule S f situation).Completes n last below (.ok r)) (solid : last ≠ .hole) :
    let H := ofModule S f situation
    (∃ first, H.Lifetime last.origin below first n) ∧
    (∀ first, H.Lifetime last.origin below first n →
      (r.performedRealAction = true ↔ ∃ k, first ≤ k ∧ k ≤ n ∧ H.Performs k) ∧
      (r.performedAction = true ↔ ∃ k, first ≤ k ∧ k ≤ n ∧ H.Executes k)) ∧
    (r.performedRealAction = true → r.performedAction = true) := by
  intro H
  have routed := ofModule_routed S fresh situation
  have whole : (Frame.module f).origin = .module f := by cases fresh <;> rfl
  have begun : ∃ first, H.Lifetime last.origin below first n :=
    exists_lifetime rfl whole ⟨[], completes.frames.symm⟩ solid
  have originSolid : last.origin ≠ .hole := by
    cases last with
    | hole => exact absurd rfl solid
    | module g | rule g | combo c | action x => exact Frame.noConfusion
  have real {first : Nat} (lifetime : H.Lifetime last.origin below first n) :
      r.performedRealAction = true ↔ ∃ k, first ≤ k ∧ k ≤ n ∧ H.Performs k :=
    performs_records.completes routed lifetime originSolid completes
  have any {first : Nat} (lifetime : H.Lifetime last.origin below first n) :
      r.performedAction = true ↔ ∃ k, first ≤ k ∧ k ≤ n ∧ H.Executes k :=
    (executes_records routed).completes routed lifetime originSolid completes
  refine ⟨begun, fun first lifetime => ⟨real lifetime, any lifetime⟩, fun performed => ?_⟩
  obtain ⟨first, lifetime⟩ := begun
  obtain ⟨k, after, upTo, performs⟩ := (real lifetime).mp performed
  have busy := lifetime.stays k after upTo
  cases frames : (H.stack k).frames with
  | nil => rw [CallStack.depth, frames] at busy; cases busy
  | cons top rest =>
      have clean := unfailed_of_le (Nat.succ_le_succ upTo) completes.unfailed
      exact (any lifetime).mpr ⟨k, after, upTo, performs.executes frames clean⟩

/-- The part that the task calls executes its exit and performs nothing. The task itself goes on to
perform an action. -/
theorem result_exact_of_part :
    (∃ last below first, leaving.Completes 14 last below (.ok ⟨.softStop, true, false⟩) ∧
      leaving.Lifetime last.origin below first 14 ∧
      (∃ k, first ≤ k ∧ k ≤ 14 ∧ leaving.Executes k) ∧
      ¬ ∃ k, first ≤ k ∧ k ≤ 14 ∧ leaving.Performs k) ∧
    ∃ last below first, leaving.Completes 20 last below (.ok ⟨.softStop, true, true⟩) ∧
      leaving.Lifetime last.origin below first 20 ∧
      ∃ k, first ≤ k ∧ k ≤ 20 ∧ leaving.Performs k := by
  have fresh : caller.Fresh := .start _ _ _ _
  have completes (n : Nat) (r : RunResult)
      (top : (leaving.stack n).frames.head?.map Frame.kind = some .module)
      (given : (leaving.stack (n + 1)).given = some r) :
      ∃ last below, leaving.Completes n last below (.ok r) ∧ last ≠ .hole := by
    cases frames : (leaving.stack n).frames with
    | nil => rw [frames] at top; cases top
    | cons last below =>
        refine ⟨last, below, completes_of_given frames given, ?_⟩
        rintro rfl
        rw [frames] at top
        cases top
  obtain ⟨part, below, completesPart, partSolid⟩ :=
    completes 14 ⟨.softStop, true, false⟩ (by decide +kernel) (by decide +kernel)
  obtain ⟨task, under, completesTask, taskSolid⟩ :=
    completes 20 ⟨.softStop, true, true⟩ (by decide +kernel) (by decide +kernel)
  obtain ⟨⟨first, lifetime⟩, records, _⟩ := result_exact _ fresh _ completesPart partSolid
  obtain ⟨⟨begun, standing⟩, alsoRecords, _⟩ := result_exact _ fresh _ completesTask taskSolid
  obtain ⟨real, any⟩ := records first lifetime
  refine ⟨⟨part, below, first, completesPart, lifetime, any.mp rfl, ?_⟩,
    task, under, begun, completesTask, standing, (alsoRecords begun standing).1.mp rfl⟩
  intro performs
  cases real.mpr performs

end History

end CognitiveAgent
