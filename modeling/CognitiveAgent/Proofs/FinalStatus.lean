import CognitiveAgent.Proofs.Turns

/-!
The status that a module leaves with. It is a hard stop exactly if the agent is to stop when the
module is left. Otherwise the module asks to stop if it is not anonymous, or if an exit was
executed in its own scope; a request to stop comes from nowhere else.
-/

set_option autoImplicit false

namespace CognitiveAgent

variable {σ ω : Type}

private theorem RunStatus.max_hardStop (s t : RunStatus) :
    s.max t = .hardStop ↔ s = .hardStop ∨ t = .hardStop := by
  cases s <;> cases t <;> decide

namespace RunResult

/-- Without a signal to stop, a module does not leave with a hard stop of its own. -/
theorem leaving_hardStop {r : RunResult} {anonymous : Bool}
    (hard : (r.leaving false anonymous).status = .hardStop) : r.status = .hardStop := by
  rw [leaving_status] at hard
  cases anonymous with
  | true => exact hard
  | false =>
      rcases (RunStatus.max_hardStop _ _).mp hard with here | impossible
      · exact here
      · cases impossible

private theorem leaving_anonymous (r : RunResult) : r.leaving false true = r := rfl

end RunResult

private theorem ModuleFrame.anonymous_of_passes {g : ModuleFrame} {below : List Frame}
    (passes : g.endsExit below = false) : g.activation.module.anonymous = true := by
  unfold endsExit at passes
  split at passes
  · rw [Bool.not_eq_false'] at passes
    exact passes
  · cases passes

namespace Frame

private theorem hears_hardStop {f : Frame} {r : RunResult} (hard : (f.hears r).status = .hardStop) :
    r.status = .hardStop := by
  unfold hears at hard
  split at hard
  · cases hard
  · exact hard

private theorem hears_stops {f : Frame} {r : RunResult} (stops : (f.hears r).isRunning = false) :
    f.deaf = false ∧ r.isRunning = false := by
  unfold hears at stops
  split at stops
  · cases stops
  · rename_i listens
    exact ⟨Bool.eq_false_iff.mpr listens, stops⟩

end Frame

namespace History

variable {H : History σ ω} {n : Nat} {f : Frame} {below rest base : List Frame}

/-! ### The signal to stop -/

def signals (H : History σ ω) (n : Nat) : List Bool :=
  (List.range n).flatMap fun i => polls (H.occurrences i)

/-- Once given, the signal to stop is never taken back. -/
def Latched (H : History σ ω) : Prop :=
  ∀ n, (H.signals n).Pairwise fun earlier later => earlier = true → later = true

def Unsignalled (H : History σ ω) (n : Nat) : Prop := ∀ i, i < n → true ∉ polls (H.occurrences i)

private theorem Latched.unsignalled (latched : H.Latched)
    (last : (polls (H.occurrences n)).getLast? = some false) : H.Unsignalled (n + 1) := by
  obtain ⟨before, shape⟩ := List.getLast?_eq_some_iff.mp last
  have all : H.signals (n + 1) = (H.signals n ++ before) ++ [false] := by
    rw [signals, List.range_succ, List.flatMap_append, List.flatMap_singleton, shape,
      List.append_assoc]
    rfl
  have ordered := latched (n + 1)
  rw [all, List.pairwise_append] at ordered
  have never : true ∉ H.signals (n + 1) := by
    rw [all, List.mem_append, List.mem_singleton]
    rintro (raised | impossible)
    · cases ordered.2.2 true raised false List.mem_cons_self rfl
    · cases impossible
  intro i earlier raised
  exact never (List.mem_flatMap.mpr ⟨i, List.mem_range.mpr earlier, raised⟩)

/-- The signals of a history that comes to an end are all seen before. -/
theorem latched_of_empty {m : Nat} (empty : (H.stack m).frames = [])
    (ordered : (H.signals m).Pairwise fun earlier later => earlier = true → later = true) :
    H.Latched := by
  have ended (n : Nat) : H.signals (m + n) = H.signals m := by
    induction n with
    | zero => rfl
    | succ n ih =>
        have gone : (H.stack (m + n)).frames = [] := by
          rw [stack_of_empty empty (Nat.le_add_right m n)]
          exact empty
        rw [← Nat.add_assoc, signals, List.range_succ, List.flatMap_append, List.flatMap_singleton,
          occurrences, Setting.occurrences_of_empty _ gone, polls_nil, List.append_nil]
        exact ih
  intro n
  by_cases late : m ≤ n
  · obtain ⟨k, rfl⟩ := Nat.exists_eq_add_of_le late
    rw [ended k]
    exact ordered
  · obtain ⟨k, shape⟩ := Nat.exists_eq_add_of_le (Nat.le_of_not_le late)
    refine ordered.sublist ?_
    rw [signals, signals, shape, List.range_add, List.flatMap_append]
    exact List.sublist_append_left _ _

theorem Unsignalled.before {m : Nat} (unsignalled : H.Unsignalled n) (earlier : m ≤ n) :
    H.Unsignalled m :=
  fun i bound => unsignalled i (Nat.lt_of_lt_of_le bound earlier)

theorem Unsignalled.last (unsignalled : H.Unsignalled (n + 1)) {stopped : Bool}
    (last : (polls (H.occurrences n)).getLast? = some stopped) : stopped = false := by
  cases stopped with
  | false => rfl
  | true => exact absurd (List.mem_of_getLast? last) (unsignalled n (Nat.lt_succ_self n))

/-! ### Where hard stops come from -/

structure Unhurried (H : History σ ω) (n : Nat) : Prop where
  gathered : ∀ f ∈ (H.stack n).frames, f.result.status ≠ .hardStop
  given : ∀ r, (H.stack n).given = some r → r.status ≠ .hardStop

theorem Unhurried.taken (unhurried : H.Unhurried n) (routed : H.setting.Routed (H.stack n))
    (frames : (H.stack n).frames = f :: below) (clean : (H.stack n).failed = false) :
    (H.taken n f).status ≠ .hardStop := by
  have gathered : f.result.status ≠ .hardStop :=
    unhurried.gathered f (by rw [frames]; exact List.mem_cons_self)
  rcases routed.taken frames clean with ⟨_, _, _, taken⟩ | ⟨_, r, given, taken⟩
  · rw [History.taken, taken]
    exact gathered
  · rw [History.taken, taken]
    intro hard
    rcases (RunStatus.max_hardStop _ _).mp hard with hard | hard
    · exact gathered hard
    · exact unhurried.given r given (Frame.hears_hardStop hard)

theorem Unhurried.step (unhurried : H.Unhurried n) (routed : H.setting.Routed (H.stack n))
    (clean : (H.stack (n + 1)).failed = false) (unsignalled : H.Unsignalled (n + 1)) :
    H.Unhurried (n + 1) := by
  cases frames : (H.stack n).frames with
  | nil =>
      have same := stack_succ_of_empty frames
      exact ⟨by rw [same]; exact unhurried.gathered, by rw [same]; exact unhurried.given⟩
  | cons f below =>
      have soft := unhurried.taken routed frames (unfailed_of_le (Nat.le_succ n) clean)
      have lower (g : Frame) (member : g ∈ below) : g.result.status ≠ .hardStop :=
        unhurried.gathered g (by rw [frames]; exact List.mem_cons_of_mem _ member)
      have turn := turn frames clean
      generalize next : H.stack (n + 1) = stack at turn
      have deeds {action : Action} {r : RunResult} {seen : List Occurrence}
          (deed : Setting.Deed action (.done r) seen) : r.status ≠ .hardStop := by
        cases deed with
        | skipped => exact RunStatus.noConfusion
        | performed => exact RunStatus.noConfusion
        | minded asks =>
            rcases asks with rfl | ⟨rfl, _⟩
            · exact RunStatus.noConfusion
            · exact RunStatus.noConfusion
      have returned {kind : FrameKind} {r : RunResult} (soft : r.status ≠ .hardStop)
          (same : H.stack (n + 1) = ⟨below, some ⟨kind, .ok r⟩⟩) : H.Unhurried (n + 1) := by
        refine ⟨?_, ?_⟩
        · rw [same]
          exact lower
        · rw [same]
          intro _ given
          cases given
          exact soft
      cases turn with
      | acts plain deed => exact returned (deeds deed) next
      | returns other solid performs => exact returned soft next
      | leaves performs last =>
          refine returned ?_ next
          rw [unsignalled.last last]
          exact fun hard => soft (RunResult.leaving_hardStop hard)
      | @waits _ later upper _ _ _ _ fresh _ _ gathered =>
          refine ⟨?_, ?_⟩
          · rw [next]
            intro g member
            rcases List.mem_append.mp member with added | held
            · rw [fresh g added]
              exact RunStatus.noConfusion
            · rcases List.mem_cons.mp held with rfl | under
              · rw [gathered]
                exact soft
              · exact lower g under
          · rw [next]
            intro _ impossible
            cases impossible

/-! ### Where other requests to stop come from -/

/-- The turn that follows `k` others executes an exit above the frames `base`. All modules in
between let it pass: they are anonymous and called. -/
def ExitsOver (H : History σ ω) (k : Nat) (base : List Frame) : Prop :=
  ∃ (x : ActionFrame) (upper : List Frame), (H.stack k).frames = .action x :: (upper ++ base) ∧
    x.action = .mental .exit ∧
    ∀ (g : ModuleFrame) (lower : List Frame), (.module g :: lower) <:+ upper ++ base →
      base.length ≤ lower.length → g.endsExit lower = false

def Exited (H : History σ ω) (n : Nat) (base : List Frame) : Prop :=
  ∃ k, k < n ∧ H.ExitsOver k base ∧ ∀ i, k ≤ i → i ≤ n → base.length ≤ (H.stack i).depth

theorem ExitsOver.lower {k : Nat} (exits : H.ExitsOver k (f :: base))
    (passes : ∀ g, f = .module g → g.endsExit base = false) : H.ExitsOver k base := by
  obtain ⟨x, upper, frames, isExit, between⟩ := exits
  have shape : upper ++ f :: base = (upper ++ [f]) ++ base := by
    rw [List.append_assoc]
    rfl
  refine ⟨x, upper ++ [f], by rw [frames, shape], isExit, ?_⟩
  intro g lower suffix above
  rw [← shape] at suffix
  by_cases here : lower.length = base.length
  · have same : Frame.module g :: lower = f :: base := by
      refine List.IsSuffix.eq_of_length (List.suffix_of_suffix_length_le suffix
        (List.suffix_append upper (f :: base)) ?_) ?_
      · exact Nat.succ_le_succ (Nat.le_of_eq here)
      · exact congrArg Nat.succ here
    obtain ⟨isModule, rfl⟩ := List.cons.inj same
    exact passes g isModule.symm
  · exact between g lower suffix (by rw [List.length_cons]; omega)

theorem Exited.lower (exited : H.Exited n (f :: base))
    (passes : ∀ g, f = .module g → g.endsExit base = false) : H.Exited n base := by
  obtain ⟨k, before, exits, stays⟩ := exited
  refine ⟨k, before, exits.lower passes, fun i after upTo => ?_⟩
  have deep := stays i after upTo
  rw [List.length_cons] at deep
  omega

private theorem Exited.under_holes {holes : Nat}
    (exited : H.Exited n (List.replicate holes .hole ++ base)) : H.Exited n base := by
  induction holes with
  | zero => exact exited
  | succ holes ih =>
      rw [List.replicate_succ, List.cons_append] at exited
      exact ih (exited.lower fun g => Frame.noConfusion)

theorem Exited.succ (exited : H.Exited n base) (stays : base.length ≤ (H.stack (n + 1)).depth) :
    H.Exited (n + 1) base := by
  obtain ⟨k, before, exits, stood⟩ := exited
  refine ⟨k, Nat.lt_succ_of_lt before, exits, fun i after upTo => ?_⟩
  by_cases last : i = n + 1
  · rw [last]
    exact stays
  · exact stood i after (by omega)

/-- An exit accounts for every request to stop, gathered or on its way, unless the frame that it
is on its way to does not hear it. -/
structure Accounted (H : History σ ω) (n : Nat) : Prop where
  gathered : ∀ f rest, (f :: rest) <:+ (H.stack n).frames → f.result.isRunning = false →
    f.kind ≠ .module ∧ H.Exited n rest
  given : ∀ r holes f rest, (H.stack n).given = some r → r.isRunning = false →
    (H.stack n).frames = List.replicate holes .hole ++ f :: rest → f ≠ .hole →
    f.deaf = true ∨ H.Exited n (f :: rest)

/-- A frame that has taken in a request to stop has gathered it before, or hears it now. -/
theorem Accounted.taken (accounted : H.Accounted n) (routed : H.setting.Routed (H.stack n))
    (frames : (H.stack n).frames = f :: below) (clean : (H.stack n).failed = false)
    (solid : f ≠ .hole) (stops : (H.taken n f).isRunning = false) :
    (f.kind ≠ .module ∧ H.Exited n below) ∨ H.Exited n (f :: below) := by
  have gathered (asks : f.result.isRunning = false) :=
    accounted.gathered f below ⟨[], frames.symm⟩ asks
  rcases routed.taken frames clean with ⟨_, _, _, taken⟩ | ⟨_, r, given, taken⟩
  · rw [History.taken, taken] at stops
    exact .inl (gathered stops)
  · rw [History.taken, taken, RunResult.merge_isRunning, Bool.and_eq_false_iff] at stops
    rcases stops with asks | heard
    · exact .inl (gathered asks)
    · obtain ⟨listens, asks⟩ := Frame.hears_stops heard
      rcases accounted.given r 0 f below given asks frames solid with deaf | exited
      · rw [listens] at deaf
        cases deaf
      · exact .inr exited

/-- A request to stop that a frame hands on was taken in by it, so an exit accounts for it. -/
theorem Accounted.handed_on (accounted : H.Accounted n) (routed : H.setting.Routed (H.stack n))
    (frames : (H.stack n).frames = f :: below) (clean : (H.stack n).failed = false)
    (solid : f ≠ .hole) (stops : (H.taken n f).isRunning = false)
    (passes : ∀ g, f = .module g → g.endsExit below = false) : H.Exited n below := by
  rcases accounted.taken routed frames clean solid stops with ⟨_, exited⟩ | exited
  · exact exited
  · exact exited.lower passes

/-- Where an exit ends, nobody below hears of it. -/
theorem deaf_below_exited {S : Setting σ ω} {M : ModuleFrame} {holes : Nat}
    (nested : S.Nested (.module M :: (List.replicate holes .hole ++ f :: rest)))
    (ends : M.endsExit (List.replicate holes .hole ++ f :: rest) = true) (solid : f ≠ .hole) :
    f.deaf = true := by
  rcases nested.below_exited ends with
    empty | ⟨a, lower, shape, called⟩ | ⟨main, lower, shape, _, _, awaiting⟩
  · exact absurd empty (List.append_ne_nil_of_right_ne_nil _ (List.cons_ne_nil _ _))
  · have alone : List.replicate holes Frame.hole ++ f :: rest =
        List.replicate 0 Frame.hole ++ .action a :: lower := shape
    obtain ⟨_, rfl, _⟩ := holes_unique solid Frame.noConfusion alone
    rw [Frame.deaf, called]
    rfl
  · obtain ⟨_, rfl, _⟩ := holes_unique solid Frame.noConfusion shape
    exact awaiting

private theorem exited_of_exit {x : ActionFrame} (frames : (H.stack n).frames = .action x :: below)
    (isExit : x.action = .mental .exit) (left : (H.stack (n + 1)).frames = below) :
    H.Exited (n + 1) below := by
  refine ⟨n, Nat.lt_succ_self n, ⟨x, [], frames, isExit, ?_⟩, ?_⟩
  · intro g lower suffix above
    have bound := suffix.length_le
    rw [List.length_cons, List.nil_append] at bound
    omega
  · intro i after upTo
    by_cases last : i = n + 1
    · rw [last, ← left]
      exact Nat.le_refl (H.stack (n + 1)).depth
    · have here : i = n := by omega
      rw [here, CallStack.depth, frames]
      exact Nat.le_succ _

private theorem mem_or_suffix {upper lower : List Frame} (suffix : (f :: rest) <:+ upper ++ lower) :
    f ∈ upper ∨ (f :: rest) <:+ lower := by
  induction upper with
  | nil => exact .inr suffix
  | cons g upper ih =>
      rcases List.suffix_cons_iff.mp suffix with same | held
      · exact .inl (List.mem_cons.mpr (.inl (List.cons.inj same).1))
      · rcases ih held with member | under
        · exact .inl (List.mem_cons_of_mem _ member)
        · exact .inr under

theorem Accounted.lower (accounted : H.Accounted n) (frames : (H.stack n).frames = f :: below)
    (held : below.length ≤ (H.stack (n + 1)).depth) {g : Frame}
    (suffix : (g :: rest) <:+ below) (asks : g.result.isRunning = false) :
    g.kind ≠ .module ∧ H.Exited (n + 1) rest := by
  obtain ⟨solid, exited⟩ := accounted.gathered g rest
    (by rw [frames]; exact suffix.trans (List.suffix_cons _ _)) asks
  have bound := suffix.length_le
  rw [List.length_cons] at bound
  exact ⟨solid, exited.succ (by omega)⟩

theorem Accounted.returned (accounted : H.Accounted n) (frames : (H.stack n).frames = f :: below)
    {kind : FrameKind} {r : RunResult} (next : H.stack (n + 1) = ⟨below, some ⟨kind, .ok r⟩⟩)
    (handed : r.isRunning = false → ∀ holes g rest,
      below = List.replicate holes .hole ++ g :: rest → g ≠ .hole →
      g.deaf = true ∨ H.Exited (n + 1) (g :: rest)) : H.Accounted (n + 1) := by
  refine ⟨fun g rest suffix asks => ?_, fun s holes g rest given asks shape solid => ?_⟩
  · rw [next] at suffix
    refine accounted.lower frames ?_ suffix asks
    rw [next]
    exact Nat.le_refl _
  · rw [next] at given shape
    cases given
    exact handed asks holes g rest shape solid

private theorem Accounted.through_hole (accounted : H.Accounted n)
    (routed : H.setting.Routed (H.stack n))
    (frames : (H.stack n).frames = .hole :: below) (clean : (H.stack n).failed = false)
    {kind : FrameKind} (next : H.stack (n + 1) = ⟨below, some ⟨kind, .ok (H.taken n .hole)⟩⟩) :
    H.Accounted (n + 1) := by
  refine accounted.returned frames next fun asks holes g rest shape solid => ?_
  rcases routed.taken frames clean with ⟨_, _, _, taken⟩ | ⟨_, r, given, taken⟩
  · rw [History.taken, taken] at asks
    cases asks
  · have same : H.taken n .hole = r := taken.trans (RunResult.start_merge r)
    have above : (H.stack n).frames = List.replicate (holes + 1) .hole ++ g :: rest := by
      rw [frames, shape]
      rfl
    rw [same] at asks
    rcases accounted.given r (holes + 1) g rest given asks above solid with deaf | exited
    · exact .inl deaf
    · refine .inr (exited.succ ?_)
      rw [next, CallStack.depth, shape, List.length_append]
      omega

theorem Exited.onward (exited : H.Exited n below) {previous : Option Completed}
    (next : H.stack (n + 1) = ⟨below, previous⟩) {holes : Nat}
    (shape : below = List.replicate holes .hole ++ f :: rest) : H.Exited (n + 1) (f :: rest) := by
  have later : H.Exited (n + 1) below := by
    refine exited.succ ?_
    rw [next]
    exact Nat.le_refl _
  rw [shape] at later
  exact later.under_holes

private theorem exit_of_stops {action : Action} {r : RunResult} {seen : List Occurrence}
    (deed : Setting.Deed action (.done r) seen) (asks : r.isRunning = false) :
    action = .mental .exit := by
  cases deed with
  | skipped => cases asks
  | performed => cases asks
  | minded status =>
      rcases status with rfl | ⟨_, rfl⟩
      · cases asks
      · rfl

/-- While no signal to stop is seen, each turn leaves all requests to stop accounted for. -/
theorem Accounted.step (accounted : H.Accounted n) (routed : H.setting.Routed (H.stack n))
    (clean : (H.stack (n + 1)).failed = false) (unsignalled : H.Unsignalled (n + 1)) :
    H.Accounted (n + 1) := by
  cases frames : (H.stack n).frames with
  | nil =>
      have empty : (H.stack (n + 1)).frames = [] := by rw [stack_succ_of_empty frames, frames]
      refine ⟨fun g rest suffix => ?_, fun r holes g rest _ _ shape => ?_⟩
      · rw [empty] at suffix
        cases List.suffix_nil.mp suffix
      · rw [empty] at shape
        exact absurd shape.symm (List.append_ne_nil_of_right_ne_nil _ (List.cons_ne_nil _ _))
  | cons f below =>
      have before := unfailed_of_le (Nat.le_succ n) clean
      have turn := turn frames clean
      generalize next : H.stack (n + 1) = stack at turn
      cases turn with
      | acts plain deed =>
          -- Of the actions that are performed, only an exit asks to stop.
          refine accounted.returned frames next fun asks holes g rest shape _ => .inr ?_
          have exited := exited_of_exit frames (exit_of_stops deed asks)
            (congrArg CallStack.frames next)
          rw [shape] at exited
          exact exited.under_holes
      | returns other solid performs =>
          by_cases isHole : f = .hole
          · subst isHole
            exact accounted.through_hole routed frames before next
          · refine accounted.returned frames next fun asks holes g rest shape _ => .inr ?_
            have exited := accounted.handed_on routed frames before isHole asks
              fun h isModule => absurd (by rw [isModule]; rfl) solid
            exact exited.onward next shape
      | @leaves g _ stopped performs last =>
          have nested := routed.nested frames Frame.noConfusion
          refine accounted.returned frames next fun asks holes h rest shape solid => ?_
          -- A module that ends an exit stands on a frame that does not hear of it. Any other is
          -- anonymous, and leaves with no more than it has taken in.
          cases ends : g.endsExit below with
          | true =>
              rw [shape] at nested ends
              exact .inl (deaf_below_exited nested ends solid)
          | false =>
              rw [unsignalled.last last, ModuleFrame.anonymous_of_passes ends,
                RunResult.leaving_anonymous] at asks
              have exited := accounted.handed_on routed frames before Frame.noConfusion asks
                fun h same => by cases same; exact ends
              exact .inr (exited.onward next shape)
      | @waits _ later upper _ _ _ same fresh solid goesOn gathered =>
          have held : below.length ≤ (H.stack (n + 1)).depth := by
            rw [next, CallStack.depth, List.length_append, List.length_cons]
            omega
          refine ⟨fun g rest suffix asks => ?_, fun r holes g rest given => ?_⟩
          · rw [next] at suffix
            rcases mem_or_suffix suffix with added | standing
            · rw [fresh g added] at asks
              cases asks
            · rcases List.suffix_cons_iff.mp standing with isLater | under
              · obtain ⟨rfl, rfl⟩ := List.cons.inj isLater
                -- A module goes on only while nothing has asked it to stop.
                have noModule : g.kind ≠ .module := by
                  intro isModule
                  rw [goesOn isModule] at asks
                  cases asks
                rw [gathered] at asks
                refine ⟨noModule, Exited.succ ?_ held⟩
                refine accounted.handed_on routed frames before solid asks fun h isModule => ?_
                rw [Frame.kind_eq_of_origin same, isModule] at noModule
                exact absurd rfl noModule
              · exact accounted.lower frames held under asks
          · rw [next] at given
            cases given

theorem Completes.leaves {M : ModuleFrame} {r : RunResult}
    (completes : H.Completes n (.module M) below (.ok r)) :
    ∃ stopped, (polls (H.occurrences n)).getLast? = some stopped ∧
      r = (H.taken n (.module M)).leaving stopped M.activation.module.anonymous := by
  have clean := unfailed_of_le (Nat.le_succ n) completes.unfailed
  obtain ⟨later, outcome, resumes, final⟩ := completes
  cases outcome with
  | yield children => cases final
  | failed failure => cases final
  | done s =>
      cases final
      rcases (resumes.passes clean rfl).done r rfl with ⟨other, _⟩ | ⟨g, stopped, same, last, left⟩
      · exact absurd rfl other
      · cases same
        exact ⟨stopped, last, left⟩

section OfModule

variable {S : Setting σ ω} {f : ModuleFrame} {situation : Situation σ ω} {M : ModuleFrame}

private theorem ofModule_accounted (fresh : f.Fresh)
    (clean : ((ofModule S f situation).stack n).failed = false)
    (unsignalled : (ofModule S f situation).Unsignalled n) :
    (ofModule S f situation).Unhurried n ∧ (ofModule S f situation).Accounted n := by
  induction n with
  | zero =>
      have start : f.activation.result = .start := by cases fresh <;> rfl
      refine ⟨⟨fun g member => ?_, fun r given => by cases given⟩,
        fun g rest suffix asks => ?_, fun r holes g rest given => by cases given⟩
      · rw [List.mem_singleton.mp member, Frame.result, start]
        exact RunStatus.noConfusion
      · rcases List.suffix_cons_iff.mp suffix with same | held
        · rw [(List.cons.inj same).1, Frame.result, start] at asks
          cases asks
        · cases List.suffix_nil.mp held
  | succ n ih =>
      have routed := ofModule_routed S fresh situation n
      obtain ⟨unhurried, accounted⟩ := ih (unfailed_of_le (Nat.le_succ n) clean)
        (unsignalled.before (Nat.le_succ n))
      exact ⟨unhurried.step routed clean unsignalled, accounted.step routed clean unsignalled⟩

/-- A module in whose own scope an exit was executed leaves with a request to stop. -/
theorem Completes.stops_of_exited (fresh : f.Fresh) {N : ModuleFrame} {r : RunResult}
    (completes : (ofModule S f situation).Completes n (.module M) below (.ok r))
    (exited : (ofModule S f situation).Exited n (.module N :: below)) : r.isRunning = false := by
  obtain ⟨k, before, ⟨x, upper, frames, isExit, between⟩, stays⟩ := exited
  have nested := ((ofModule_routed S fresh situation k).before_exit frames isExit).1
  obtain ⟨ended, outer, scope⟩ := nested.exists_exitScope
  have within : outer.length ≤ below.length := by
    refine Nat.le_of_not_lt fun above => ?_
    have passes := between ended outer scope.inside above
    rw [scope.ends] at passes
    cases passes
  have exits := exits_of_action fresh frames isExit scope
  have unfailing : (ofModule S f situation).Unfailing k (n + 1) :=
    fun i _ upTo => unfailed_of_le upTo completes.unfailed
  obtain ⟨_, _, leaves⟩ := exits.gives_way before unfailing completes.frames within stays
  obtain ⟨s, asks, next⟩ := leaves M rfl
  have same := congrArg CallStack.previous (next.symm.trans completes.stack_succ)
  cases same
  exact asks

/-- The status of a module that has been left. Let the signal to stop never be taken back. Then
the module reports a hard stop exactly if the signal was there when it was left, which is what the
last answer in its last turn tells. Otherwise it reports a soft stop exactly if it is not
anonymous or an exit was executed in its own scope, and that it is running in all other cases. -/
theorem final_status (S : Setting σ ω) {f : ModuleFrame} (fresh : f.Fresh)
    (situation : Situation σ ω) (latched : (ofModule S f situation).Latched) {n : Nat}
    {M : ModuleFrame} {below : List Frame} {r : RunResult}
    (completes : (ofModule S f situation).Completes n (.module M) below (.ok r)) :
    let H := ofModule S f situation
    let asked := M.activation.module.anonymous = false ∨ ∃ N, H.Exited n (.module N :: below)
    ∃ stopped, (polls (H.occurrences n)).getLast? = some stopped ∧
      (r.status = .hardStop ↔ stopped = true) ∧
      (r.status = .softStop ↔ stopped = false ∧ asked) ∧
      (r.status = .running ↔ stopped = false ∧ ¬ asked) := by
  intro H asked
  obtain ⟨stopped, last, left⟩ := completes.leaves
  have clean := unfailed_of_le (Nat.le_succ n) completes.unfailed
  refine ⟨stopped, last, ?_⟩
  cases stopped with
  | true =>
      have hard : r.status = .hardStop := by
        rw [left, RunResult.leaving_status]
        rfl
      rw [hard]
      simp
  | false =>
      obtain ⟨unhurried, accounted⟩ := ofModule_accounted fresh clean
        ((latched.unsignalled last).before (Nat.le_succ n))
      have routed := ofModule_routed S fresh situation n
      have soft : r.status ≠ .hardStop := by
        rw [left]
        exact fun hard =>
          unhurried.taken routed completes.frames clean (RunResult.leaving_hardStop hard)
      have stops : r.isRunning = false ↔ asked := by
        constructor
        · intro asks
          cases anonymous : M.activation.module.anonymous with
          | false => exact .inl anonymous
          | true =>
              rw [left, anonymous, RunResult.leaving_anonymous] at asks
              rcases accounted.taken routed completes.frames clean Frame.noConfusion asks with
                ⟨other, _⟩ | exited
              · exact absurd rfl other
              · exact .inr ⟨M, exited⟩
        · rintro (named | ⟨N, exited⟩)
          · rw [left, named]
            exact RunResult.merge_stops_right _ rfl
          · exact completes.stops_of_exited fresh exited
      rw [← stops]
      unfold RunResult.isRunning
      cases status : r.status with
      | hardStop => exact absurd status soft
      | softStop => simp
      | running => simp

end OfModule

def halting : History Simulation.World Simulation.Trace :=
  ofModule (Simulation.setting ⟨[task], none, none, none, none⟩ .linear false) caller
    (Simulation.situation { stopAt := some 4 } ⟨Vector.replicate 8 0, 0⟩)

/-- The part is anonymous and leaves with a soft stop, so an exit was executed in its scope. The
task leaves with a hard stop, so the signal was there. -/
theorem final_status_of_part :
    halting.Latched ∧
    (∃ M below, halting.Completes 14 (.module M) below (.ok ⟨.softStop, true, false⟩) ∧
      M.activation.module.anonymous = true ∧
      (polls (halting.occurrences 14)).getLast? = some false ∧
      ∃ N, halting.Exited 14 (.module N :: below)) ∧
    ∃ M below, halting.Completes 20 (.module M) below (.ok ⟨.hardStop, true, true⟩) ∧
      (polls (halting.occurrences 20)).getLast? = some true := by
  have fresh : caller.Fresh := .start _ _ _ _
  have latched : halting.Latched := by
    have empty : (halting.stack 25).frames.length = 0 := by decide +kernel
    exact latched_of_empty (List.length_eq_zero_iff.mp empty) (by decide +kernel)
  have completes (n : Nat) (anonymous : Bool) (r : RunResult)
      (top : (halting.stack n).innermost?.map (fun g => g.activation.module.anonymous) =
        some anonymous)
      (kind : (halting.stack n).frames.head?.map Frame.kind = some .module)
      (given : (halting.stack (n + 1)).given = some r) :
      ∃ M below, halting.Completes n (.module M) below (.ok r) ∧
        M.activation.module.anonymous = anonymous := by
    cases frames : (halting.stack n).frames with
    | nil => rw [frames] at kind; cases kind
    | cons f below =>
        rw [CallStack.innermost?, frames] at top
        rw [frames] at kind
        cases f with
        | rule g | combo c | action x | hole => cases kind
        | module M => exact ⟨M, below, completes_of_given frames given, Option.some.inj top⟩
  obtain ⟨part, below, completesPart, anonymous⟩ := completes 14 true ⟨.softStop, true, false⟩
    (by decide +kernel) (by decide +kernel) (by decide +kernel)
  obtain ⟨task, under, completesTask, _⟩ := completes 20 false ⟨.hardStop, true, true⟩
    (by decide +kernel) (by decide +kernel) (by decide +kernel)
  obtain ⟨stopped, last, _, soft, _⟩ := final_status _ fresh _ latched completesPart
  obtain ⟨alsoStopped, alsoLast, hard, _⟩ := final_status _ fresh _ latched completesTask
  obtain ⟨rfl, asked⟩ := soft.mp rfl
  obtain rfl := hard.mp rfl
  refine ⟨latched, ⟨part, below, completesPart, anonymous, last, ?_⟩,
    task, under, completesTask, alsoLast⟩
  rcases asked with named | exited
  · rw [anonymous] at named
    cases named
  · exact exited

end History

end CognitiveAgent
