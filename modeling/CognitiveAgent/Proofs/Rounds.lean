import CognitiveAgent.Proofs.OwnTurns

/-!
Frames that work in rounds. A rule and a combo push one child at a time and hear what it has come
to before they go on. Such a frame can be followed through its own turns alone, with any results of
its children and in whatever situations it is resumed. Every lifetime of such a frame in a history
is a case of this: the children are those that have run there, and the results are theirs.
-/

set_option autoImplicit false

namespace CognitiveAgent

variable {σ ω : Type}

/-- A child that a frame has pushed, with what occurred in the turn that pushed it and what the
child has come to. -/
structure Round where
  seen : List Occurrence
  child : Frame
  result : RunResult

def Round.heard (rounds : List Round) : Option RunResult := rounds.getLast?.map (·.result)

def Round.gathered (rounds : List Round) : RunResult :=
  (rounds.map (·.result)).foldl RunResult.merge .start

/-- Whether the frame is a rule or a combo. These push one child at a time, and no holes. -/
def Frame.inRounds (f : Frame) : Bool := f.kind == .rule || f.kind == .combo

private theorem Frame.inRounds_of_origin {f g : Frame} (same : f.origin = g.origin) :
    f.inRounds = g.inRounds := by
  rw [inRounds, inRounds, kind_eq_of_origin same]

theorem Round.heard_append (rounds : List Round) (last : Round) :
    heard (rounds ++ [last]) = some last.result := by
  rw [heard, List.getLast?_append, List.getLast?_singleton]
  rfl

theorem Round.gathered_append (rounds : List Round) (last : Round) :
    gathered (rounds ++ [last]) = (gathered rounds).merge last.result := by
  rw [gathered, List.map_append, List.foldl_append]
  rfl

namespace Setting

variable (S : Setting σ ω)

/-- There is a situation in which the frame, resumed with the result of its child, is left as
`later` with this outcome, while this occurs. -/
def Takes (f : Frame) (previous : Option RunResult) (later : Frame) (outcome : Outcome)
    (seen : List Occurrence) : Prop :=
  ∃ situation : Situation σ ω, (S.resumeWith f previous situation).1 = (later, outcome) ∧
    (S.traced.resumeWith f previous situation.unseen).2.record = seen

/-- The frame takes one turn after the other, each time with the result of the child that it has
pushed in the turn before. Nothing is assumed of the results, nor of the situations. -/
inductive Rounds (S : Setting σ ω) (start : Frame) : List Round → Frame → Prop where
  | opens : S.Rounds start [] start
  | next {rounds : List Round} {f later child : Frame} {seen : List Occurrence}
      (before : S.Rounds start rounds f)
      (turn : S.Takes f (Round.heard rounds) later (.yield [child]) seen) (result : RunResult) :
      S.Rounds start (rounds ++ [⟨seen, child, result⟩]) later

def Finishes (start : Frame) (rounds : List Round) (last : List Occurrence) (r : RunResult) :
    Prop :=
  ∃ f later, S.Rounds start rounds f ∧ S.Takes f (Round.heard rounds) later (.done r) last

variable {S} {f later : Frame} {outcome : Outcome} {seen : List Occurrence}

theorem Takes.occurs {previous : Option RunResult}
    {holds : Frame × Outcome → List Occurrence → Prop}
    (takes : S.Takes f previous later outcome seen)
    (logs : (S.traced.resumeWith f previous).Logs holds) : holds (later, outcome) seen := by
  obtain ⟨situation, returns, noted⟩ := takes
  have same : (S.resumeWith f previous situation).1 =
      (S.traced.resumeWith f previous situation.unseen).1 := by
    cases previous with
    | none => exact (S.mirrors_traced.resume f none _ _ situation.alike_unseen).1
    | some r =>
        exact (S.mirrors_traced.resume f (some ⟨.hole, .ok r⟩) _ _ situation.alike_unseen).1
  obtain ⟨more, record, here⟩ := logs situation.unseen
  rw [← returns, same, ← noted, record]
  exact here

end Setting

namespace History

variable {H : History σ ω} {f g x later : Frame} {below : List Frame} {outcome : Outcome}
variable {first n : Nat}

theorem Resumes.takes (resumes : H.Resumes n f below later outcome)
    (clean : (H.stack n).failed = false) :
    H.setting.Takes f (H.stack n).given later outcome (H.occurrences n) := by
  have noted : (H.setting.traced.resume f (H.stack n).previous (H.situation n).unseen).2.record =
      H.occurrences n := by
    unfold occurrences Setting.occurrences
    rw [stack_eq resumes.frames]
    rfl
  have returns := resumes.returns
  rw [Setting.resume_given _ f clean] at returns noted
  exact ⟨H.situation n, returns, noted⟩

/-- The rounds of the frame on `below` from its turn `first` on, up to its turn `n`: each child has
run in the history, from the turn that has pushed it to the turn that finds its result. -/
inductive Rounds (H : History σ ω) (below : List Frame) (first : Nat) :
    List Round → Nat → Prop where
  | opens : H.Rounds below first [] first
  | next {rounds : List Round} {k n : Nat} {f later child : Frame} {r : RunResult}
      (before : H.Rounds below first rounds k)
      (resumes : H.Resumes k f below later (.yield [child]))
      (runs : H.Runs below k [child] (some r) n) :
      H.Rounds below first (rounds ++ [⟨H.occurrences k, child, r⟩]) n

private theorem Resumes.one_child {children : List Frame}
    (resumes : H.Resumes n f below later (.yield children)) (inRounds : f.inRounds = true) :
    ∃ child, children = [child] := by
  obtain ⟨same, proper⟩ := resumes.proper
  rw [← Frame.inRounds_of_origin same] at inRounds
  cases proper with
  | idle => cases inRounds
  | push awaits =>
      cases awaits with
      | action | combo => exact ⟨_, rfl⟩
      | module | rule | ownCombo | events => cases inRounds

/-- A rule or a combo gets from its first turn to any later one by rounds. -/
theorem Lifetime.exists_rounds (start : H.setting.Routed H.start)
    (vacant : H.start.previous = none) (single : H.start.depth ≤ 1)
    (lifetime : H.Lifetime g below first n) (inRounds : g.inRounds = true)
    (frames : (H.stack n).frames = x :: below) (clean : (H.stack n).failed = false) :
    ∃ rounds, H.Rounds below first rounds n ∧ H.setting.Rounds g rounds x ∧
      (H.stack n).given = Round.heard rounds := by
  -- Each turn but the first follows another one, so the induction goes back from turn to turn.
  induction n using Nat.strongRecOn generalizing x with
  | ind n ih =>
      have depth : (H.stack n).depth = below.length + 1 := by
        rw [CallStack.depth, frames, List.length_cons]
      obtain ⟨y, sameFrames, origin⟩ := lifetime.frames depth
      obtain rfl : x = y := (List.cons.inj (frames.symm.trans sameFrames)).1
      have same : x.origin = g.origin := origin.trans lifetime.fresh.symm
      have solid : x ≠ .hole := by
        rintro rfl
        rw [← Frame.inRounds_of_origin same] at inRounds
        cases inRounds
      rcases lifetime.preceding_turn start vacant single frames solid clean with
        rfl | ⟨k, before, children, after, resumes, runs⟩
      · obtain rfl : g = x := (List.cons.inj (lifetime.opens.symm.trans frames)).1
        have idle := Frame.waits_of_fresh lifetime.fresh
        have empty := (stack_routed start n).vacant frames solid idle
        refine ⟨[], .opens, .opens, ?_⟩
        rw [CallStack.given, empty]
        rfl
      · have later := runs.later
        have cleanThen := unfailed_of_le (Nat.le_of_lt later) clean
        obtain ⟨rounds, course, abstract, given⟩ := ih k later
          (lifetime.upTo after (Nat.le_of_lt later)) resumes.frames cleanThen
        have alsoInRounds : before.inRounds = true := by
          rw [Frame.inRounds_of_origin (resumes.proper.1.symm.trans same)]
          exact inRounds
        obtain ⟨child, rfl⟩ := resumes.one_child alsoInRounds
        cases heard : (H.stack n).given with
        | none =>
            rw [heard] at runs
            cases runs.heard.mp rfl
        | some r =>
            rw [heard] at runs
            have takes := resumes.takes cleanThen
            rw [given] at takes
            refine ⟨rounds ++ [⟨H.occurrences k, child, r⟩], course.next resumes runs,
              abstract.next takes r, ?_⟩
            rw [Round.heard_append]

/-- A rule or a combo that completes without failure has got there by rounds. -/
theorem Completes.exists_rounds {r : RunResult} (start : H.setting.Routed H.start)
    (vacant : H.start.previous = none) (single : H.start.depth ≤ 1)
    (completes : H.Completes n x below (.ok r)) (lifetime : H.Lifetime g below first n)
    (inRounds : g.inRounds = true) :
    ∃ rounds, H.Rounds below first rounds n ∧
      H.setting.Finishes g rounds (H.occurrences n) r := by
  have clean := unfailed_of_le (Nat.le_succ n) completes.unfailed
  obtain ⟨rounds, course, abstract, given⟩ :=
    lifetime.exists_rounds start vacant single inRounds completes.frames clean
  obtain ⟨later, outcome, resumes, final⟩ := completes
  have takes := resumes.takes clean
  rw [given] at takes
  refine ⟨rounds, course, x, later, abstract, ?_⟩
  cases outcome with
  | yield children => cases final
  | failed failure => cases final
  | done result =>
      cases final
      exact takes

end History

end CognitiveAgent
