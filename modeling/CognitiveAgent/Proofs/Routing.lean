import CognitiveAgent.Program.Construction
import CognitiveAgent.Proofs.Waiting
import CognitiveAgent.Simulation.Trace

/-!
The one slot for an outcome serves all frames. It is filled exactly when the frame on top, or the
frame below the holes on top, waits for it, and then it holds the outcome of the very child that
this frame has pushed.
-/

set_option autoImplicit false

namespace CognitiveAgent

variable {σ ω : Type}

namespace Setting

variable (S : Setting σ ω)

/-- Frames of which each, but for the top one, waits for what stands on it. -/
inductive Nested : List Frame → Prop where
  | bottom (f : ModuleFrame) : Nested [.module f]
  | above {f top : Frame} {below : List Frame} {holes : Nat} (under : Nested (f :: below))
      (awaits : S.Awaits f holes top.origin) :
      Nested (top :: (List.replicate holes .hole ++ f :: below))

/-- Stacks whose slot holds an outcome exactly when it is waited for. -/
inductive Routed : CallStack → Prop where
  | ready {top : Frame} {below : List Frame} (nested : S.Nested (top :: below))
      (idle : top.waits = false) : Routed ⟨top :: below, none⟩
  | returned {f child : Frame} {below : List Frame} {holes left : Nat} {completed : Completed}
      (nested : S.Nested (f :: below)) (awaits : S.Awaits f holes child) (bound : left ≤ holes) :
      Routed ⟨List.replicate left .hole ++ f :: below, some completed⟩
  | finished (completed : Completed) : Routed ⟨[], some completed⟩

variable {S} {f top later : Frame} {below : List Frame}

theorem Nested.ne_hole (nested : S.Nested (top :: below)) : top ≠ .hole := by
  cases nested with
  | bottom f => intro impossible; cases impossible
  | above under awaits =>
      intro impossible
      subst top
      exact awaits.child_ne_hole rfl

theorem Nested.replace (nested : S.Nested (top :: below)) (same : later.origin = top.origin) :
    S.Nested (later :: below) := by
  cases nested with
  | bottom f =>
      cases later with
      | module g => exact .bottom g
      | rule g | combo g | action g | hole => cases same
  | above under awaits =>
      rw [← same] at awaits
      exact .above under awaits

theorem Nested.leave (nested : S.Nested (top :: below)) (completed : Completed) :
    S.Routed ⟨below, some completed⟩ := by
  cases nested with
  | bottom f => exact .finished completed
  | above under awaits => exact .returned under awaits (Nat.le_refl _)

theorem settle_routed {outcome : Outcome} (nested : S.Nested (f :: below))
    (same : later.origin = f.origin) (proper : S.Proper later outcome) :
    S.Routed (.settle below later outcome) := by
  cases proper with
  | done _ result => exact nested.leave _
  | failed _ failure => exact nested.leave _
  | idle active nothing => exact .ready (nested.replace same) nothing
  | push awaits =>
      rw [CallStack.settle_push]
      refine .ready (.above (nested.replace same) ?_) awaits.child_waits
      rw [awaits.child_origin]
      exact awaits

theorem Routed.exists_waiting {stack : CallStack} (routed : S.Routed stack)
    (frames : stack.frames = top :: below) (waiting : top = .hole ∨ top.waits = true) :
    ∃ completed left f rest, stack.previous = some completed ∧
      top :: below = List.replicate left .hole ++ f :: rest ∧ f.waits = true := by
  cases routed with
  | ready nested idle =>
      obtain ⟨rfl, rfl⟩ := List.cons.inj frames
      rcases waiting with isHole | waits
      · exact absurd isHole nested.ne_hole
      · rw [idle] at waits; cases waits
  | @returned f child rest holes left completed nested awaits bound =>
      exact ⟨completed, left, f, rest, rfl, frames.symm, awaits.waits⟩
  | finished completed => cases frames

theorem Routed.vacant {stack : CallStack} (routed : S.Routed stack)
    (frames : stack.frames = top :: below) (solid : top ≠ .hole) (idle : top.waits = false) :
    stack.previous = none := by
  cases routed with
  | ready nested idle => rfl
  | @returned f child rest holes left completed nested awaits bound =>
      cases left with
      | zero =>
          obtain ⟨rfl, rfl⟩ := List.cons.inj frames
          rw [awaits.waits] at idle
          cases idle
      | succ left => exact absurd (List.cons.inj frames).1.symm solid
  | finished completed => cases frames

theorem suffix_of_ne {x y : Frame} {rest : List Frame} (other : x ≠ y)
    (suffix : (x :: below) <:+ y :: rest) : (x :: below) <:+ rest := by
  rcases List.suffix_cons_iff.mp suffix with same | held
  · exact absurd (List.cons.inj same).1 other
  · exact held

theorem suffix_of_holes {x : Frame} {rest : List Frame} {holes : Nat} (solid : x ≠ .hole)
    (suffix : (x :: below) <:+ List.replicate holes .hole ++ rest) : (x :: below) <:+ rest := by
  induction holes with
  | zero => exact suffix
  | succ holes ih =>
      rw [List.replicate_succ, List.cons_append] at suffix
      exact ih (suffix_of_ne solid suffix)

/-- A frame anywhere in nested frames is on top, or waits for the frame above it. -/
theorem Nested.split {frames : List Frame} (nested : S.Nested frames) (solid : f ≠ .hole)
    (suffix : (f :: below) <:+ frames) :
    S.Nested (f :: below) ∧ (f :: below = frames ∨ ∃ top holes,
      (top :: (List.replicate holes .hole ++ f :: below)) <:+ frames ∧
        S.Awaits f holes top.origin) := by
  induction nested with
  | bottom g =>
      rcases List.suffix_cons_iff.mp suffix with same | held
      · rw [same]
        exact ⟨.bottom g, .inl rfl⟩
      · cases List.suffix_nil.mp held
  | @above g top rest holes under awaits ih =>
      rcases List.suffix_cons_iff.mp suffix with same | held
      · rw [same]
        exact ⟨.above under awaits, .inl rfl⟩
      · obtain ⟨nested, position⟩ := ih (suffix_of_holes solid held)
        refine ⟨nested, .inr ?_⟩
        rcases position with same | ⟨child, between, inside, waiting⟩
        · obtain ⟨rfl, rfl⟩ := List.cons.inj same
          exact ⟨top, holes, List.suffix_refl _, awaits⟩
        · refine ⟨child, between, ?_, waiting⟩
          exact inside.trans ((List.suffix_append _ _).trans (List.suffix_cons _ _))

/-- One pop keeps outcomes on their way to the frames that wait for them. -/
theorem pop_routed {stack : CallStack} (routed : S.Routed stack) (situation : Situation σ ω) :
    S.Routed (S.pop stack situation).1 := by
  cases routed with
  | @ready top below nested idle =>
      have left := S.resume_returns top none situation
      rw [pop_cons]
      exact settle_routed nested left.1 left.2
  | @returned f child below holes left completed nested awaits bound =>
      cases left with
      | zero =>
          have left := S.resume_returns f (some completed) situation
          change S.Routed (S.pop ⟨f :: below, some completed⟩ situation).1
          rw [pop_cons]
          exact settle_routed nested left.1 left.2
      | succ left =>
          have step : S.Routed (S.pop ⟨.hole :: (List.replicate left .hole ++ f :: below),
              some completed⟩ situation).1 := by
            obtain ⟨outcome, resumed, handed⟩ := S.resume_hole completed situation
            rw [pop_cons, resumed, CallStack.settle_result handed]
            exact .returned nested awaits (by omega)
          exact step
  | finished completed => exact .finished completed

end Setting

namespace History

variable {H : History σ ω} {n : Nat} {f later : Frame} {below : List Frame} {outcome : Outcome}
variable {result : Except Failure RunResult}

theorem stack_routed (start : H.setting.Routed H.start) (n : Nat) :
    H.setting.Routed (H.stack n) := by
  induction n with
  | zero => exact start
  | succ n ih => exact Setting.pop_routed ih (H.situation n)

theorem Resumes.proper (resumes : H.Resumes n f below later outcome) :
    later.origin = f.origin ∧ H.setting.Proper later outcome := by
  have left := H.setting.resume_returns f (H.stack n).previous (H.situation n)
  rw [resumes.returns] at left
  exact left

theorem Completes.stack_succ (completes : H.Completes n f below result) :
    H.stack (n + 1) = ⟨below, some ⟨f.kind, result⟩⟩ := by
  obtain ⟨later, outcome, resumes, final⟩ := completes
  rw [resumes.stack_succ, CallStack.settle_result final,
    Frame.kind_eq_of_origin resumes.proper.1]

def Pushes (H : History σ ω) (n : Nat) (child : Frame) (below : List Frame) : Prop :=
  ∃ before f rest holes,
    H.Resumes n before rest f (.yield (List.replicate holes .hole ++ [child])) ∧
      below = List.replicate holes .hole ++ f :: rest

/-- A frame that stands on the stack after a pop was pushed by it, or stood there before. -/
theorem pushes_or_stood {x : Frame} (suffix : (x :: below) <:+ (H.stack (n + 1)).frames)
    (solid : x ≠ .hole) :
    H.Pushes n x.origin below ∨
      ∃ y : Frame, y.origin = x.origin ∧ (y :: below) <:+ (H.stack n).frames := by
  cases frames : (H.stack n).frames with
  | nil =>
      rw [stack_succ_of_empty frames, frames] at suffix
      cases List.suffix_nil.mp suffix
  | cons top rest =>
      obtain ⟨later, outcome, resumes⟩ := exists_resumes frames
      have lower (held : (x :: below) <:+ rest) :
          ∃ y : Frame, y.origin = x.origin ∧ (y :: below) <:+ top :: rest :=
        ⟨x, rfl, held.trans (List.suffix_cons top rest)⟩
      have resumed (held : (x :: below) <:+ later :: rest) :
          ∃ y : Frame, y.origin = x.origin ∧ (y :: below) <:+ top :: rest := by
        rcases List.suffix_cons_iff.mp held with same | held
        · obtain ⟨rfl, rfl⟩ := List.cons.inj same
          exact ⟨top, resumes.proper.1.symm, List.suffix_refl _⟩
        · exact lower held
      rw [resumes.stack_succ] at suffix
      cases resumes.proper.2 with
      | done => exact .inr (lower suffix)
      | failed => exact .inr (lower suffix)
      | idle => exact .inr (resumed suffix)
      | @push _ child holes awaits =>
          rw [CallStack.settle_push] at suffix
          rcases List.suffix_cons_iff.mp suffix with same | held
          · obtain ⟨rfl, rfl⟩ := List.cons.inj same
            rw [awaits.child_origin]
            exact .inl ⟨top, later, rest, holes, resumes, rfl⟩
          · exact .inr (resumed (Setting.suffix_of_holes solid held))

/-- A frame that is neither a hole nor the bottom frame was pushed by an earlier pop. What lay
under it then lies under it still. -/
theorem exists_push (single : H.start.depth ≤ 1) {x : Frame}
    (suffix : (x :: below) <:+ (H.stack n).frames) (solid : x ≠ .hole) (inside : below ≠ []) :
    ∃ pushed, pushed < n ∧ H.Pushes pushed x.origin below ∧
      ∀ i, pushed < i → i ≤ n → below.length < (H.stack i).depth := by
  induction n generalizing x with
  | zero =>
      have bound : (x :: below).length ≤ H.start.depth := suffix.length_le
      rw [List.length_cons] at bound
      exact absurd (List.length_eq_zero_iff.mp (by omega)) inside
  | succ n ih =>
      have bound : below.length < (H.stack (n + 1)).depth := suffix.length_le
      rcases pushes_or_stood suffix solid with pushes | ⟨y, same, stood⟩
      · refine ⟨n, by omega, pushes, ?_⟩
        intro i after upTo
        have now : i = n + 1 := by omega
        subst i
        exact bound
      · have ySolid : y ≠ .hole := by
          intro isHole
          subst y
          cases x with
          | hole => exact solid rfl
          | module g | rule g | combo g | action g => cases same
        obtain ⟨pushed, earlier, pushes, stays⟩ := ih stood ySolid
        rw [same] at pushes
        refine ⟨pushed, by omega, pushes, ?_⟩
        intro i after upTo
        by_cases now : i = n + 1
        · subst i; exact bound
        · exact stays i after (by omega)

theorem holes_unique {f g : Frame} {rest others : List Frame} {left right : Nat}
    (solid : f ≠ .hole) (alsoSolid : g ≠ .hole)
    (same : List.replicate left Frame.hole ++ f :: rest =
      List.replicate right Frame.hole ++ g :: others) :
    left = right ∧ f = g ∧ rest = others := by
  induction left generalizing right with
  | zero =>
      cases right with
      | zero => exact ⟨rfl, (List.cons.inj same).1, (List.cons.inj same).2⟩
      | succ right => exact absurd (List.cons.inj same).1 solid
  | succ left ih =>
      cases right with
      | zero => exact absurd (List.cons.inj same).1.symm alsoSolid
      | succ right =>
          obtain ⟨sameCount, sameRest⟩ := ih (List.cons.inj same).2
          exact ⟨congrArg Nat.succ sameCount, sameRest⟩

/-- The way of a result to the frame `f` on `below`: the frame pushes a child, with holes between
the two, and the child stays on the stack until it completes with the result. -/
structure Delivery (H : History σ ω) (f : Frame) (below : List Frame)
    (result : Except Failure RunResult) where
  pushed : Nat
  completed : Nat
  holes : Nat
  before : Frame
  last : Frame
  push : H.Resumes pushed before below f (.yield (List.replicate holes .hole ++ [last.origin]))
  solid : last ≠ .hole
  later : pushed < completed
  stays : ∀ i, pushed < i → i ≤ completed → below.length + 1 + holes < (H.stack i).depth
  completes : H.Completes completed last (List.replicate holes .hole ++ f :: below) result

theorem Delivery.waits (delivery : H.Delivery f below result) : f.waits = true := by
  have proper := delivery.push.proper.2
  generalize shape : List.replicate delivery.holes .hole ++ [delivery.last.origin] = children
    at proper
  cases proper with
  | idle => exact absurd shape (List.append_ne_nil_of_right_ne_nil _ (List.cons_ne_nil _ _))
  | push awaits => exact awaits.waits

/-- What a completed frame leaves behind is on its way to the frame that pushed it. -/
theorem Completes.delivery (single : H.start.depth ≤ 1) {last : Frame}
    (completes : H.Completes n last below result) (solid : last ≠ .hole) (inside : below ≠ []) :
    ∃ f rest, ∃ delivery : H.Delivery f rest result, delivery.completed = n ∧
      delivery.last = last ∧ below = List.replicate delivery.holes .hole ++ f :: rest := by
  have frames : (H.stack n).frames = last :: below := by
    obtain ⟨_, _, resumes, _⟩ := completes
    exact resumes.frames
  have suffix : (last :: below) <:+ (H.stack n).frames := ⟨[], frames.symm⟩
  obtain ⟨pushed, earlier, ⟨before, f, rest, holes, push, shape⟩, stays⟩ :=
    exists_push single suffix solid inside
  subst below
  have height : (List.replicate holes Frame.hole ++ f :: rest).length =
      rest.length + 1 + holes := by
    rw [List.length_append, List.length_replicate, List.length_cons]
    omega
  rw [height] at stays
  exact ⟨f, rest, ⟨pushed, n, holes, before, last, push, solid, earlier, stays, completes⟩,
    rfl, rfl, rfl⟩

theorem completes_of_previous {top : Frame} {completed : Completed}
    (frames : (H.stack n).frames = top :: below)
    (held : (H.stack (n + 1)).previous = some completed) :
    H.Completes n top below completed.result ∧ (H.stack (n + 1)).frames = below := by
  obtain ⟨later, outcome, resumes⟩ := exists_resumes frames
  rw [resumes.stack_succ] at held ⊢
  cases outcome with
  | yield children => cases held
  | done result => cases held; exact ⟨⟨later, _, resumes, rfl⟩, rfl⟩
  | failed failure => cases held; exact ⟨⟨later, _, resumes, rfl⟩, rfl⟩

/-- A hole hands on what waits for it. -/
theorem Completes.of_hole {completed : Completed} (frames : (H.stack n).frames = .hole :: below)
    (held : (H.stack n).previous = some completed) :
    H.Completes n .hole below completed.result := by
  obtain ⟨outcome, resumed, handed⟩ := H.setting.resume_hole completed (H.situation n)
  refine ⟨.hole, outcome, ⟨frames, ?_⟩, handed⟩
  rw [held, resumed]

/-- Behind what waits above some holes stands the completion of a frame above all the holes that
have handed it on. -/
theorem exists_completes (start : H.setting.Routed H.start) (vacant : H.start.previous = none)
    {left : Nat} {completed : Completed}
    (frames : (H.stack n).frames = List.replicate left .hole ++ f :: below)
    (held : (H.stack n).previous = some completed) :
    ∃ passed at' last, at' + 1 + passed = n ∧ last ≠ .hole ∧
      H.Completes at' last (List.replicate (left + passed) .hole ++ f :: below)
        completed.result := by
  induction n generalizing left completed with
  | zero =>
      have none : H.start.previous = some completed := held
      rw [vacant] at none
      cases none
  | succ n ih =>
      cases before : (H.stack n).frames with
      | nil =>
          rw [stack_succ_of_empty before, before] at frames
          exact absurd frames.symm
            (List.append_ne_nil_of_right_ne_nil _ (List.cons_ne_nil _ _))
      | cons top rest =>
          obtain ⟨completes, same⟩ := completes_of_previous before held
          have shape : rest = List.replicate left .hole ++ f :: below := same.symm.trans frames
          subst shape
          by_cases isHole : top = .hole
          · subst top
            obtain ⟨earlier, _, _, _, waiting, _⟩ :=
              (stack_routed start n).exists_waiting before (.inl rfl)
            -- The hole has handed on what waited for it, so look one pop further back.
            obtain ⟨_, outcome, resumes, final⟩ := completes
            obtain ⟨_, outcome', resumes', final'⟩ := Completes.of_hole before waiting
            have sameOutcome : outcome = outcome' :=
              (Prod.mk.inj (resumes.returns.symm.trans resumes'.returns)).2
            have sameResult : earlier.result = completed.result := by
              rw [sameOutcome, final'] at final
              exact Option.some.inj final
            have deeper : (H.stack n).frames =
                List.replicate (left + 1) .hole ++ f :: below := before
            obtain ⟨passed, at', last, time, solid, origin⟩ := ih deeper waiting
            rw [sameResult] at origin
            refine ⟨passed + 1, at', last, by omega, solid, ?_⟩
            have count : left + (passed + 1) = left + 1 + passed := by omega
            rw [count]
            exact origin
          · exact ⟨0, n, top, rfl, isHole, completes⟩

def ofModule (S : Setting σ ω) (f : ModuleFrame) (situation : Situation σ ω) : History σ ω :=
  { setting := S, start := { frames := [.module f] }, initial := situation }

theorem ofModule_routed (S : Setting σ ω) {f : ModuleFrame} (fresh : f.Fresh)
    (situation : Situation σ ω) (n : Nat) : S.Routed ((ofModule S f situation).stack n) := by
  have start : (ofModule S f situation).setting.Routed (ofModule S f situation).start :=
    .ready (.bottom f) fresh.waits
  exact stack_routed start n

/-- How a frame that waits for nothing comes to be on top: it is the first frame, or it has just
been pushed, or it is a module that has just yielded no children. -/
inductive Arrives (H : History σ ω) : Nat → Frame → List Frame → Prop where
  | first {top : Frame} {below : List Frame} (frames : H.start.frames = top :: below) :
      H.Arrives 0 top below
  | pushed {n : Nat} {top : Frame} {below : List Frame} (pushes : H.Pushes n top below) :
      H.Arrives (n + 1) top below
  | idled {n : Nat} {before : Frame} {f : ModuleFrame} {below : List Frame}
      (resumes : H.Resumes n before below (.module f) (.yield [])) :
      H.Arrives (n + 1) (.module f) below

theorem arrives {top : Frame} (frames : (H.stack n).frames = top :: below)
    (vacant : (H.stack n).previous = none) : H.Arrives n top below := by
  cases n with
  | zero => exact .first frames
  | succ n =>
      cases before : (H.stack n).frames with
      | nil =>
          rw [stack_succ_of_empty before, before] at frames
          cases frames
      | cons earlier rest =>
          obtain ⟨later, outcome, resumes⟩ := exists_resumes before
          rw [resumes.stack_succ] at frames vacant
          cases resumes.proper.2 with
          | done => cases vacant
          | failed => cases vacant
          | idle =>
              obtain ⟨rfl, rfl⟩ := List.cons.inj frames
              exact .idled resumes
          | push awaits =>
              rw [CallStack.settle_push] at frames
              obtain ⟨rfl, rfl⟩ := List.cons.inj frames
              exact .pushed ⟨earlier, later, rest, _, resumes, rfl⟩

/-- Holes hand a result on, one pop each, down to the frame below them. -/
theorem handed_on {completed : Completed} {holes : Nat}
    (stack : H.stack n = ⟨List.replicate holes .hole ++ f :: below, some completed⟩)
    (passed : Nat) (bound : passed ≤ holes) :
    (H.stack (n + passed)).frames = List.replicate (holes - passed) .hole ++ f :: below ∧
      (H.stack (n + passed)).result? = some completed.result := by
  induction passed with
  | zero => rw [Nat.add_zero, stack]; exact ⟨rfl, rfl⟩
  | succ passed ih =>
      obtain ⟨frames, held⟩ := ih (by omega)
      have more : holes - passed = (holes - (passed + 1)) + 1 := by omega
      rw [more, List.replicate_succ, List.cons_append] at frames
      obtain ⟨waiting, present, same⟩ := Option.map_eq_some_iff.mp held
      have completes := Completes.of_hole frames present
      rw [← Nat.add_assoc, completes.stack_succ]
      exact ⟨rfl, congrArg some same⟩

/-- An outcome reaches the frame that pushed for it, and no other frame. While a frame waits, or
holes above it do, the slot holds what its own child came to; any other frame finds the slot
empty. Each child's outcome passes through the holes below it and is taken up once. -/
theorem outcome_routing (S : Setting σ ω) {f : ModuleFrame} (fresh : f.Fresh)
    (situation : Situation σ ω) (n : Nat) :
    let H := ofModule S f situation
    (∀ top below, (H.stack n).frames = top :: below → top = .hole ∨ top.waits = true →
      ∃ completed left g rest, ∃ delivery : H.Delivery g rest completed.result,
        (H.stack n).previous = some completed ∧
        top :: below = List.replicate left .hole ++ g :: rest ∧ left ≤ delivery.holes ∧
        delivery.completed + 1 + (delivery.holes - left) = n) ∧
    (∀ top below, (H.stack n).frames = top :: below → top ≠ .hole → top.waits = false →
      (H.stack n).previous = none ∧ H.Arrives n top below) ∧
    (∀ last below result, H.Completes n last below result → last ≠ .hole → below ≠ [] →
      ∃ g rest, ∃ delivery : H.Delivery g rest result,
        delivery.completed = n ∧ delivery.last = last ∧
        below = List.replicate delivery.holes .hole ++ g :: rest ∧
        (∀ passed, passed ≤ delivery.holes →
          (H.stack (n + 1 + passed)).frames =
            List.replicate (delivery.holes - passed) .hole ++ g :: rest ∧
          (H.stack (n + 1 + passed)).result? = some result) ∧
        ∃ later outcome, H.Resumes (n + 1 + delivery.holes) g rest later outcome ∧
          (H.stack (n + 1 + delivery.holes + 1)).result? = outcome.result?) := by
  intro H
  have routed : S.Routed (H.stack n) := ofModule_routed S fresh situation n
  have start : H.setting.Routed H.start := .ready (.bottom f) fresh.waits
  have single : H.start.depth ≤ 1 := Nat.le_refl 1
  refine ⟨?_, ?_, ?_⟩
  · intro top below frames waiting
    obtain ⟨completed, left, g, rest, held, shape, waits⟩ := routed.exists_waiting frames waiting
    rw [shape] at frames
    obtain ⟨passed, time, last, order, solid, completes⟩ := exists_completes start rfl frames held
    have inside : List.replicate (left + passed) Frame.hole ++ g :: rest ≠ [] :=
      List.append_ne_nil_of_right_ne_nil _ (List.cons_ne_nil _ _)
    obtain ⟨g', rest', delivery, sameTime, sameLast, sameShape⟩ :=
      completes.delivery single solid inside
    have gSolid : g ≠ .hole := by intro isHole; subst g; cases waits
    have gSolid' : g' ≠ .hole := by
      intro isHole
      have waits' := delivery.waits
      subst g'
      cases waits'
    obtain ⟨count, rfl, rfl⟩ := holes_unique gSolid gSolid' sameShape
    exact ⟨completed, left, g, rest, delivery, held, shape, by omega, by omega⟩
  · intro top below frames solid idle
    have vacant := routed.vacant frames solid idle
    exact ⟨vacant, arrives frames vacant⟩
  · intro last below result completes solid inside
    obtain ⟨g, rest, delivery, sameTime, sameLast, shape⟩ := completes.delivery single solid inside
    have stack := completes.stack_succ
    rw [shape] at stack
    have way := handed_on stack
    refine ⟨g, rest, delivery, sameTime, sameLast, shape, way, ?_⟩
    have frames := (way delivery.holes (Nat.le_refl _)).1
    rw [Nat.sub_self] at frames
    obtain ⟨later, outcome, resumes⟩ := exists_resumes frames
    refine ⟨later, outcome, resumes, ?_⟩
    rw [resumes.stack_succ]
    cases outcome <;> rfl

def chooser : ModuleFrame :=
  .start { Module.ofName "chooser" with
    rules := [.ofKind .ifThen .always [.perform "act" []]], strategy := .adaptive } .empty none none

def choosing : History Simulation.World Simulation.Trace :=
  ofModule (Simulation.setting ⟨[], none, none, none, none⟩ .linear false) chooser
    (Simulation.situation {} ⟨Vector.replicate 8 0, 0⟩)

/-- The chosen combo completes by the fourth pop, and the hole that stood for a rule has the
outcome then. -/
theorem outcome_routing_of_choice :
    chooser.Fresh ∧
    (∃ top below, (choosing.stack 2).frames = top :: below ∧ top ≠ .hole ∧ top.waits = false ∧
      (choosing.stack 2).previous = none ∧ choosing.Arrives 2 top below) ∧
    (∃ last below result, choosing.Completes 3 last below result ∧
      ∃ g rest, ∃ delivery : choosing.Delivery g rest result,
        delivery.completed = 3 ∧ below = List.replicate delivery.holes .hole ++ g :: rest) ∧
    (∃ below, (choosing.stack 4).frames = .hole :: below ∧
      ∃ completed left g rest, ∃ delivery : choosing.Delivery g rest completed.result,
        (choosing.stack 4).previous = some completed ∧
        .hole :: below = List.replicate left .hole ++ g :: rest ∧
        delivery.completed + 1 + (delivery.holes - left) = 4) := by
  have fresh : chooser.Fresh := .start _ _ _ _
  have routing := outcome_routing (Simulation.setting ⟨[], none, none, none, none⟩ .linear false)
    fresh (Simulation.situation {} ⟨Vector.replicate 8 0, 0⟩)
  refine ⟨fresh, ⟨_, _, rfl, ?_, rfl, (routing 2).2.1 _ _ rfl ?_ rfl⟩, ?_, ?_⟩
  · intro impossible; cases impossible
  · intro impossible; cases impossible
  · have completes : ∃ last below result, choosing.Completes 3 last below result ∧
        last ≠ .hole ∧ below ≠ [] := by
      refine ⟨_, _, _, ⟨_, _, ⟨rfl, rfl⟩, rfl⟩, ?_, ?_⟩
      · intro impossible; cases impossible
      · intro impossible; cases impossible
    obtain ⟨last, below, result, completes, solid, inside⟩ := completes
    obtain ⟨g, rest, delivery, time, _, shape, _⟩ :=
      (routing 3).2.2 last below result completes solid inside
    exact ⟨last, below, result, completes, g, rest, delivery, time, shape⟩
  · obtain ⟨completed, left, g, rest, delivery, held, shape, _, time⟩ :=
      (routing 4).1 _ _ rfl (.inl rfl)
    exact ⟨_, rfl, completed, left, g, rest, delivery, held, shape, time⟩

end History

end CognitiveAgent
