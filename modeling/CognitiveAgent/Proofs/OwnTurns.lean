import CognitiveAgent.Proofs.Turns

/-!
The turns that a frame takes itself. Between two of them its children run, from the turn that has
pushed them to the turn that finds what they have come to. So whatever a frame is tracked by can
be led on from turn to turn, and what its turns have done can be added up.
-/

set_option autoImplicit false

namespace CognitiveAgent

variable {σ ω : Type}

namespace History

variable {H : History σ ω} {below : List Frame} {first k m n : Nat}
variable {children : List Frame} {previous : Option RunResult}

def mustStop (H : History σ ω) (n : Nat) (f : Frame) : Bool :=
  !(H.taken n f).isRunning || (polls (H.occurrences n)).head? == some true

theorem taken_present (now : ModuleFrame) :
    H.taken n (.module now) =
      (now.strategy.absorb (H.setting.present now) (H.stack n).given).result := by
  unfold Setting.present
  split
  · rfl
  · exact (StrategyState.absorb_prepared _ _ _ _ _).symm

/-- What occurs in a turn of a module, given what occurs when it pursues its strategy. -/
theorem Resumes.pursues {now : ModuleFrame} {later : Frame} {outcome : Outcome}
    {holds : Activation → ModuleFrame × Outcome → List Occurrence → Prop}
    (resumes : H.Resumes n (.module now) below later outcome)
    (clean : (H.stack n).failed = false)
    (pursued : ∀ a, a.prepared = true →
      (H.setting.traced.pursue a now.strategy (H.stack n).given).Logs (holds a)) :
    ∃ g, later = .module g ∧
      ((now.activation.prepared = false ∧ (∃ failure, outcome = .failed failure) ∧
          ∀ o ∈ H.occurrences n, o.Upkeep) ∨
        ∃ entry rest, H.occurrences n = entry ++ rest ∧ (∀ o ∈ entry, o.Upkeep) ∧
          holds (H.setting.present now) (g, outcome) rest) := by
  have logs : (H.setting.traced.resume (.module now) (H.stack n).previous).Logs fun left seen =>
      ∃ g, left.1 = .module g ∧
        ((now.activation.prepared = false ∧ (∃ failure, left.2 = .failed failure) ∧
            ∀ o ∈ seen, o.Upkeep) ∨
          ∃ entry rest, seen = entry ++ rest ∧ (∀ o ∈ entry, o.Upkeep) ∧
            holds (H.setting.present now) (g, left.2) rest) := by
    rw [Setting.resume_given _ _ clean]
    refine (H.setting.resumeModule_pursues pursued).bind fun left seen turn => ?_
    refine Exec.logs_pure ⟨left.1, rfl, ?_⟩
    rw [List.append_nil]
    exact turn
  exact resumes.occurs logs

/-- The frame on `below` has pushed these children in turn `k`. They run to their end, and the
frame takes its next turn, turn `m`, with what they have come to. -/
inductive Runs (H : History σ ω) (below : List Frame) :
    Nat → List Frame → Option RunResult → Nat → Prop where
  | nothing (k : Nat) : H.Runs below k [] none (k + 1)
  | child {f : Frame} {r : RunResult} (delivery : H.Delivery f below (.ok r)) :
      H.Runs below delivery.pushed (List.replicate delivery.holes .hole ++ [delivery.last.origin])
        (some r) (delivery.completed + 1 + delivery.holes)

theorem Runs.heard (runs : H.Runs below k children previous m) :
    previous = none ↔ children = [] := by
  cases runs with
  | nothing => exact ⟨fun _ => rfl, fun _ => rfl⟩
  | child delivery => simp

theorem Runs.later (runs : H.Runs below k children previous m) : k < m := by
  cases runs with
  | nothing => omega
  | child delivery =>
      have later := delivery.later
      omega

theorem Runs.apart (runs : H.Runs below k children previous m) {i : Nat} (after : k < i)
    (before : i < m) : below.length + 1 < (H.stack i).depth := by
  cases runs with
  | nothing => omega
  | @child f r delivery =>
      by_cases running : i ≤ delivery.completed
      · have deep := delivery.stays i after running
        omega
      · -- The child has completed, and the holes below it hand the result on.
        have stack := delivery.completes.stack_succ
        have way := (handed_on stack (i - (delivery.completed + 1)) (by omega)).1
        have time : delivery.completed + 1 + (i - (delivery.completed + 1)) = i := by omega
        rw [time] at way
        rw [CallStack.depth, way, List.length_append, List.length_replicate, List.length_cons]
        omega

/-- A frame that has waited finds what its own child has come to. -/
theorem runs_of_waits {f : Frame} (start : H.setting.Routed H.start)
    (vacant : H.start.previous = none) (single : H.start.depth ≤ 1)
    (frames : (H.stack n).frames = f :: below) (waits : f.waits = true)
    (clean : (H.stack n).failed = false) :
    ∃ k before children, H.Resumes k before below f (.yield children) ∧
      H.Runs below k children (H.stack n).given n := by
  obtain ⟨completed, _, _, _, held, _⟩ :=
    (stack_routed start n).exists_waiting frames (.inr waits)
  obtain ⟨r, result, given⟩ := CallStack.given_of_previous held clean
  have here : (H.stack n).frames = List.replicate 0 .hole ++ f :: below := frames
  obtain ⟨passed, time, last, order, solid, completes⟩ := exists_completes start vacant here held
  have inside : List.replicate (0 + passed) Frame.hole ++ f :: below ≠ [] :=
    List.append_ne_nil_of_right_ne_nil _ (List.cons_ne_nil _ _)
  rw [result] at completes
  obtain ⟨g, rest, delivery, sameTime, _, shape⟩ := completes.delivery single solid inside
  have fSolid : f ≠ .hole := by rintro rfl; cases waits
  have gSolid : g ≠ .hole := by
    rintro rfl
    cases delivery.waits
  obtain ⟨count, rfl, rfl⟩ := holes_unique fSolid gSolid shape
  have now : delivery.completed + 1 + delivery.holes = n := by omega
  refine ⟨_, _, _, delivery.push, ?_⟩
  rw [given, ← now]
  exact .child delivery

/-- A turn of a frame is its first one, or it follows another turn of the frame. -/
theorem Lifetime.preceding_turn {g x : Frame} (start : H.setting.Routed H.start)
    (vacant : H.start.previous = none) (single : H.start.depth ≤ 1)
    (lifetime : H.Lifetime g below first n) (frames : (H.stack n).frames = x :: below)
    (solid : x ≠ .hole) (clean : (H.stack n).failed = false) :
    n = first ∨ ∃ k before children, first ≤ k ∧ H.Resumes k before below x (.yield children) ∧
      H.Runs below k children (H.stack n).given n := by
  by_cases opens : n = first
  · exact .inl opens
  · have later : first < n := Nat.lt_of_le_of_ne lifetime.ordered (Ne.symm opens)
    refine .inr ?_
    by_cases waits : x.waits = true
    · obtain ⟨k, before, children, resumes, runs⟩ :=
        runs_of_waits start vacant single frames waits clean
      refine ⟨k, before, children, ?_, resumes, runs⟩
      -- Between the two turns the stack is higher than in the first turn of the frame.
      apply Nat.le_of_not_lt
      intro between
      have deep := runs.apart between later
      rw [CallStack.depth, lifetime.opens] at deep
      exact absurd deep (Nat.lt_irrefl _)
    · have idle := (stack_routed start n).vacant frames solid (Bool.eq_false_iff.mpr waits)
      have given : (H.stack n).given = none := by rw [CallStack.given, idle]
      rw [given]
      cases arrives frames idle with
      | first => omega
      | @pushed k _ _ pushes =>
          obtain ⟨before, f, rest, holes, resumes, shape⟩ := pushes
          have deep := lifetime.stays k (by omega) (by omega)
          rw [CallStack.depth, resumes.frames, shape] at deep
          simp only [List.length_append, List.length_replicate, List.length_cons] at deep
          omega
      | @idled k before _ _ resumes =>
          exact ⟨k, before, [], by omega, resumes, .nothing k⟩

theorem Lifetime.preceding {g : Frame} {now : ModuleFrame} (start : H.setting.Routed H.start)
    (vacant : H.start.previous = none) (single : H.start.depth ≤ 1)
    (lifetime : H.Lifetime g below first n) (frames : (H.stack n).frames = .module now :: below)
    (clean : (H.stack n).failed = false) :
    n = first ∨ ∃ k before children, first ≤ k ∧ H.Resumes k before below (.module now)
      (.yield children) ∧ H.Runs below k children (H.stack n).given n :=
  lifetime.preceding_turn start vacant single frames Frame.noConfusion clean

def turns (H : History σ ω) (below : List Frame) (first n : Nat) : List Nat :=
  (List.range' first (n - first)).filter fun i => (H.stack i).depth == below.length + 1

theorem turns_of_runs (after : first ≤ k) (own : (H.stack k).depth = below.length + 1)
    (runs : H.Runs below k children previous n) :
    H.turns below first n = H.turns below first k ++ [k] := by
  have later := runs.later
  have split : List.range' first (n - first) =
      List.range' first (k - first) ++ k :: List.range' (k + 1) (n - (k + 1)) := by
    have length : n - first = (k - first) + ((n - (k + 1)) + 1) := by omega
    have here : first + (k - first) = k := by omega
    rw [length, ← List.range'_append_1, here, List.range'_succ]
  have others : (List.range' (k + 1) (n - (k + 1))).filter
      (fun i => (H.stack i).depth == below.length + 1) = [] := by
    rw [List.filter_eq_nil_iff]
    intro i member
    have bounds := List.mem_range'_1.mp member
    have deep := runs.apart (i := i) (by omega) (by omega)
    simp only [beq_iff_eq]
    omega
  unfold turns
  rw [split, List.filter_append, List.filter_cons_of_pos (by simp [own]), others]

/-- A module begins its strategy anew in its first turn, and nothing waits for it there. -/
theorem Lifetime.opening {g : ModuleFrame} (lifetime : H.Lifetime (.module g) below first n)
    (routed : H.setting.Routed (H.stack first)) :
    g.origin = g ∧ g.strategy = .start g.activation.module.strategy ∧
      (H.stack first).given = none := by
  have fresh : g.origin = g := Frame.module.inj lifetime.fresh
  have strategy : g.strategy = .start g.activation.module.strategy := by
    rw [← fresh]
    rfl
  have idle : g.strategy.waits = false := by
    rw [strategy]
    exact StrategyState.start_waits _
  have vacant := routed.vacant lifetime.opens Frame.noConfusion idle
  refine ⟨fresh, strategy, ?_⟩
  rw [CallStack.given, vacant]

/-! ### Leading something on from turn to turn -/

/-- What tracks the frame on `below` from its first turn on: a turn is a move that leads it on,
and what the children have come to is heard before the next turn. -/
inductive Follows {Λ : Type} (H : History σ ω) (below : List Frame) (first : Nat)
    (moves : Nat → Λ → Outcome → Λ → Prop) (hear : Λ → Option RunResult → Λ) (start : Λ) :
    Nat → Λ → Prop where
  | enters : H.Follows below first moves hear start first start
  | goesOn {k n : Nat} {l after : Λ} {children : List Frame} {previous : Option RunResult}
      (before : H.Follows below first moves hear start k l)
      (own : (H.stack k).depth = below.length + 1) (move : moves k l (.yield children) after)
      (runs : H.Runs below k children previous n) :
      H.Follows below first moves hear start n (hear after previous)

section Following

variable {Λ : Type} {moves : Nat → Λ → Outcome → Λ → Prop} {hear : Λ → Option RunResult → Λ}
variable {start l : Λ}

theorem Follows.ordered (follows : H.Follows below first moves hear start n l) : first ≤ n := by
  induction follows with
  | enters => exact Nat.le_refl _
  | goesOn _ _ _ runs ih => exact Nat.le_trans ih (Nat.le_of_lt runs.later)

theorem Follows.invariant {holds : Λ → Prop}
    (follows : H.Follows below first moves hear start n l) (here : holds start)
    (step : ∀ {k m : Nat} {l after : Λ} {children : List Frame} {previous : Option RunResult},
      holds l → moves k l (.yield children) after → H.Runs below k children previous m →
        holds (hear after previous)) : holds l := by
  induction follows with
  | enters => exact here
  | goesOn _ _ move runs ih => exact step ih move runs

/-- What each turn adds to an account adds up to the account. -/
theorem Follows.accounts {β : Type} {deeds : Nat → List β} {account : Λ → List β}
    (follows : H.Follows below first moves hear start n l) (nothing : account start = [])
    (step : ∀ {k m : Nat} {l after : Λ} {children : List Frame} {previous : Option RunResult},
      moves k l (.yield children) after → H.Runs below k children previous m →
        account (hear after previous) = account l ++ deeds k) :
    (H.turns below first n).flatMap deeds = account l := by
  induction follows with
  | enters => simp [turns, nothing]
  | goesOn before own move runs ih =>
      rw [turns_of_runs before.ordered own runs, List.flatMap_append, ih, List.flatMap_singleton,
        step move runs]

/-- Every turn of a module in a history without failures is tracked, if its first turn is and each
turn leads on to the next. -/
theorem Lifetime.exists_follows {tracks : Λ → Nat → ModuleFrame → Prop} {g now : ModuleFrame}
    (routed : H.setting.Routed H.start) (vacant : H.start.previous = none)
    (single : H.start.depth ≤ 1) (lifetime : H.Lifetime (.module g) below first n)
    (frames : (H.stack n).frames = .module now :: below) (clean : (H.stack n).failed = false)
    (opens : tracks start first g)
    (step : ∀ {k : Nat} {l : Λ} {old later : ModuleFrame} {children : List Frame},
      H.Resumes k (.module old) below (.module later) (.yield children) → tracks l k old →
        (H.stack k).failed = false →
        ∃ after, moves k l (.yield children) after ∧
          ∀ m, ((H.stack m).given = none ↔ children = []) →
            tracks (hear after (H.stack m).given) m later) :
    ∃ l, H.Follows below first moves hear start n l ∧ tracks l n now := by
  -- Each turn but the first follows another one, so the induction goes back from turn to turn.
  induction n using Nat.strongRecOn generalizing now with
  | ind n ih =>
      rcases lifetime.preceding routed vacant single frames clean with
        rfl | ⟨k, before, children, after, resumes, runs⟩
      · have same := lifetime.opens.symm.trans frames
        cases (List.cons.inj same).1
        exact ⟨start, .enters, opens⟩
      · have later := runs.later
        have cleanThen := unfailed_of_le (Nat.le_of_lt later) clean
        obtain ⟨old, rfl⟩ : ∃ old, before = .module old := by
          have same := resumes.proper.1
          cases before with
          | module old => exact ⟨old, rfl⟩
          | rule g | combo c | action x | hole => cases same
        obtain ⟨l, follows, tracked⟩ := ih k later (lifetime.upTo after (Nat.le_of_lt later))
          resumes.frames cleanThen
        obtain ⟨moved, move, leads⟩ := step resumes tracked cleanThen
        have own : (H.stack k).depth = below.length + 1 := by
          rw [CallStack.depth, resumes.frames]
          rfl
        exact ⟨_, follows.goesOn own move runs, leads n runs.heard⟩

end Following

end History

end CognitiveAgent
