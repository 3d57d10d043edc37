import CognitiveAgent.Proofs.Termination

/-!
The shape of a stack. Counted from the bottom, each depth has one kind of frame, and a hole keeps
the place of a level that is passed over. Main statement: every stack that popping one module or
stepping an agent leads to has this shape.
-/

set_option autoImplicit false

namespace CognitiveAgent

variable {σ ω : Type}

namespace FrameKind

def levels : List FrameKind := [.module, .rule, .combo, .action]

def level : FrameKind → Nat
  | .module | .hole => 0
  | .rule => 1
  | .combo => 2
  | .action => 3

private theorem levels_level {kind : FrameKind} (solid : kind ≠ .hole) :
    levels[kind.level]? = some kind := by
  cases kind with
  | hole => exact absurd rfl solid
  | module | rule | combo | action => rfl

end FrameKind

private theorem Frame.kind_ne_hole {f : Frame} (solid : f ≠ .hole) : f.kind ≠ .hole := by
  cases f with
  | hole => exact absurd rfl solid
  | module g | rule g | combo c | action x => exact FrameKind.noConfusion

/-- So many holes, and no more, between the frames above them and the frames below. -/
structure HoleBlock (frames upper : List Frame) (count : Nat) (lower : List Frame) : Prop where
  split : frames = upper ++ (List.replicate count .hole ++ lower)
  positive : 0 < count
  above : upper.getLast? ≠ some .hole
  below : lower.head? ≠ some .hole

namespace Setting

variable (S : Setting σ ω)

/-- What the holes stand for: the rule of a combo that a module runs itself; the rule, the combo
and the action that have not called the event module; or what has been left of these when the
frame above them is gone. -/
inductive Bridges : List Frame → Nat → List Frame → Prop where
  | combo {upper : List Frame} {c : ComboFrame} {g : ModuleFrame} {rest : List Frame} :
      Bridges (upper ++ [.combo c]) 1 (.module g :: rest)
  | events {upper : List Frame} {event main : ModuleFrame} {rest : List Frame}
      (isMain : main.activation.isMain = true)
      (isEvent : S.program.event = some event.activation.module) :
      Bridges (upper ++ [.module event]) 3 (.module main :: rest)
  | returning {count : Nat} {g : ModuleFrame} {rest : List Frame} (few : count ≤ 3) :
      Bridges [] count (.module g :: rest)

structure Shaped (stack : CallStack) : Prop where
  kinds : ∀ depth kind, stack.kinds[depth]? = some kind →
    kind = .hole ∨ FrameKind.levels[depth % 4]? = some kind
  holes : ∀ upper count lower, HoleBlock stack.frames upper count lower →
    S.Bridges upper count lower
  bottom : stack.frames ≠ [] → ∃ g, stack.frames.getLast? = some (.module g)
  innermost : stack.frames ≠ [] → ∃ upper g lower, stack.frames = upper ++ .module g :: lower ∧
    (∀ f ∈ upper, f.kind ≠ .module) ∧ upper.length ≤ 3 ∧ stack.innermost? = some g

/-- The frames are nested, or holes are left on nested frames by the child of the topmost. -/
inductive Standing : List Frame → Prop where
  | nested {frames : List Frame} (nested : S.Nested frames) : Standing frames
  | returned {f child : Frame} {below : List Frame} {holes left : Nat}
      (nested : S.Nested (f :: below)) (awaits : S.Awaits f holes child) (bound : left ≤ holes) :
      Standing (List.replicate left .hole ++ f :: below)

variable {S} {f top : Frame} {frames below : List Frame} {stack : CallStack}

/-! ### Levels -/

theorem Awaits.level {child : Frame} {holes : Nat} (awaits : S.Awaits f holes child) :
    child.kind.level = (f.kind.level + 1 + holes) % 4 := by
  cases awaits <;> simp only [Frame.kind, FrameKind.level, Activation.ruleFrame]

theorem Nested.level (nested : S.Nested (top :: below)) :
    top.kind.level = below.length % 4 := by
  generalize whole : top :: below = frames at nested
  induction nested generalizing top below with
  | bottom g =>
      cases whole
      rfl
  | @above f child lower holes under awaits ih =>
      cases whole
      have height : (List.replicate holes Frame.hole ++ f :: lower).length =
          lower.length + 1 + holes := by
        simp only [List.length_append, List.length_replicate, List.length_cons]
        omega
      have here := awaits.level
      rw [Frame.kind_origin, ih rfl] at here
      rw [here, height]
      omega

/-! ### Holes -/

private theorem lower_eq {count holes : Nat} {lower : List Frame} (solid : f ≠ .hole)
    (vacant : lower.head? ≠ some .hole)
    (same : List.replicate holes Frame.hole ++ f :: below = List.replicate count .hole ++ lower) :
    count = holes ∧ lower = f :: below := by
  cases lower with
  | nil =>
      have member : f ∈ List.replicate count Frame.hole := by
        rw [List.append_nil] at same
        rw [← same]
        exact List.mem_append_right _ List.mem_cons_self
      exact absurd (List.eq_of_mem_replicate member) solid
  | cons g rest =>
      have otherSolid : g ≠ .hole := by
        rintro rfl
        exact vacant rfl
      obtain ⟨sameCount, sameFrame, sameRest⟩ := History.holes_unique solid otherSolid same
      rw [sameCount, sameFrame, sameRest]
      exact ⟨rfl, rfl⟩

/-- Holes in the midst of nested frames lie below the child of the frame under them. -/
theorem Nested.bridges {upper lower : List Frame} {count : Nat}
    (nested : S.Nested (top :: (List.replicate count .hole ++ lower))) (positive : 0 < count)
    (vacant : lower.head? ≠ some .hole) : S.Bridges (upper ++ [top]) count lower := by
  generalize whole : top :: (List.replicate count Frame.hole ++ lower) = frames at nested
  cases nested with
  | bottom g =>
      have none := (List.cons.inj whole).2
      have length := congrArg List.length none
      simp only [List.length_append, List.length_replicate, List.length_nil] at length
      omega
  | @above f child rest holes under awaits =>
      obtain ⟨rfl, same⟩ := List.cons.inj whole
      obtain ⟨rfl, rfl⟩ := lower_eq awaits.ne_hole vacant same.symm
      generalize origin : top.origin = pushed at awaits
      cases awaits with
      | module | action | combo | rule => exact absurd positive (Nat.lt_irrefl 0)
      | ownCombo active awaiting =>
          cases top with
          | combo c => exact .combo
          | module g | rule g | action x | hole => cases origin
      | events active awaiting main event =>
          cases top with
          | rule g | combo c | action x | hole => cases origin
          | module g =>
              have same := congrArg (fun h : ModuleFrame => h.activation.module)
                (Frame.module.inj origin)
              exact .events main (event.trans (congrArg some same.symm))

private theorem Awaits.few_holes {child : Frame} {holes : Nat} (awaits : S.Awaits f holes child)
    (positive : 0 < holes) : holes ≤ 3 ∧ ∃ g, f = .module g := by
  cases awaits with
  | module | action | combo | rule => exact absurd positive (Nat.lt_irrefl 0)
  | ownCombo => exact ⟨by omega, _, rfl⟩
  | events => exact ⟨by omega, _, rfl⟩

/-! ### Modules -/

private theorem innermost_append {upper lower : List Frame} {g : ModuleFrame}
    (others : ∀ x ∈ upper, x.kind ≠ .module) (previous : Option Completed) :
    CallStack.innermost? ⟨upper ++ .module g :: lower, previous⟩ = some g := by
  induction upper with
  | nil => rfl
  | cons x upper ih =>
      have rest := ih fun y member => others y (List.mem_cons_of_mem x member)
      cases x with
      | module h => exact absurd rfl (others _ List.mem_cons_self)
      | rule g | combo c | action x | hole => exact rest

/-- The module that the top frame belongs to lies as many frames below it as its kind says. -/
theorem Nested.exists_module (nested : S.Nested (top :: below)) :
    ∃ upper g lower, top :: below = upper ++ .module g :: lower ∧
      (∀ x ∈ upper, x.kind ≠ .module) ∧ upper.length = top.kind.level := by
  generalize whole : top :: below = frames at nested
  induction nested generalizing top below with
  | bottom g =>
      cases whole
      exact ⟨[], g, [], rfl, fun x member => absurd member List.not_mem_nil, rfl⟩
  | @above f child rest holes under awaits ih =>
      cases whole
      obtain ⟨upper, g, lower, shape, others, length⟩ := ih rfl
      by_cases isModule : child.kind = .module
      · cases child with
        | rule g | combo c | action x | hole => cases isModule
        | module h => exact ⟨[], h, _, rfl, fun x member => absurd member List.not_mem_nil, rfl⟩
      · refine ⟨child :: (List.replicate holes .hole ++ upper), g, lower, ?_, ?_, ?_⟩
        · rw [shape, List.cons_append, List.append_assoc]
        · intro x member
          rcases List.mem_cons.mp member with rfl | inside
          · exact isModule
          · rcases List.mem_append.mp inside with hole | higher
            · rw [List.eq_of_mem_replicate hole]
              exact FrameKind.noConfusion
            · exact others x higher
        · have here := awaits.level
          rw [Frame.kind_origin] at here
          have bound : f.kind.level + 1 + holes < 4 := by
            generalize origin : child.origin = pushed at awaits
            have kind := congrArg Frame.kind origin
            rw [Frame.kind_origin] at kind
            cases awaits with
            | module | events => exact absurd kind isModule
            | action | combo | rule | ownCombo =>
                simp only [Frame.kind, FrameKind.level]
                omega
          rw [List.length_cons, List.length_append, List.length_replicate, length, here]
          omega

/-! ### Stacks -/

theorem Routed.standing (routed : S.Routed stack) (busy : stack.frames ≠ []) :
    S.Standing stack.frames := by
  cases routed with
  | ready nested idle => exact .nested nested
  | returned nested awaits bound => exact .returned nested awaits bound
  | finished completed => exact absurd rfl busy

theorem Standing.at_suffix (standing : S.Standing frames) (solid : f ≠ .hole)
    (suffix : (f :: below) <:+ frames) : S.Nested (f :: below) := by
  cases standing with
  | nested nested => exact (nested.split solid suffix).1
  | returned nested awaits bound => exact (nested.split solid (suffix_of_holes solid suffix)).1

private theorem Standing.bridges {upper lower : List Frame} {count : Nat}
    (standing : S.Standing frames)
    (block : HoleBlock frames upper count lower) : S.Bridges upper count lower := by
  have split := block.split
  rcases List.eq_nil_or_concat upper with rfl | ⟨higher, x, rfl⟩
  · rw [List.nil_append] at split
    cases standing with
    | nested nested =>
        obtain ⟨more, rfl⟩ := Nat.exists_eq_succ_of_ne_zero (Nat.ne_of_gt block.positive)
        rw [split] at nested
        exact absurd rfl nested.ne_hole
    | returned nested awaits bound =>
        obtain ⟨rfl, rfl⟩ := lower_eq awaits.ne_hole block.below split
        have positive := block.positive
        obtain ⟨few, g, rfl⟩ := awaits.few_holes (by omega)
        exact .returning (by omega)
  · have solid : x ≠ .hole := by
      rintro rfl
      exact block.above (by simp)
    have suffix : (x :: (List.replicate count .hole ++ lower)) <:+ frames := by
      refine ⟨higher, ?_⟩
      rw [split, List.concat_eq_append, List.append_assoc, List.singleton_append]
    rw [List.concat_eq_append]
    exact (standing.at_suffix solid suffix).bridges block.positive block.below

theorem Standing.exists_bottom (standing : S.Standing frames) :
    ∃ upper g, frames = upper ++ [.module g] := by
  cases standing with
  | nested nested => exact nested.exists_bottom
  | @returned f child below holes left nested awaits bound =>
      obtain ⟨upper, g, shape⟩ := nested.exists_bottom
      refine ⟨List.replicate left .hole ++ upper, g, ?_⟩
      rw [shape, List.append_assoc]

private theorem Standing.exists_module (standing : S.Standing frames) :
    ∃ upper g lower, frames = upper ++ .module g :: lower ∧
      (∀ x ∈ upper, x.kind ≠ .module) ∧ upper.length ≤ 3 := by
  have bounded (kind : FrameKind) : kind.level ≤ 3 := by
    cases kind <;> simp only [FrameKind.level] <;> omega
  cases standing with
  | nested nested =>
      cases frames with
      | nil => cases nested
      | cons top below =>
          obtain ⟨upper, g, lower, shape, others, length⟩ := nested.exists_module
          rw [shape]
          exact ⟨upper, g, lower, rfl, others, by rw [length]; exact bounded _⟩
  | @returned f child below holes left nested awaits bound =>
      by_cases none : left = 0
      · subst none
        obtain ⟨upper, g, lower, shape, others, length⟩ := nested.exists_module
        rw [shape]
        exact ⟨upper, g, lower, rfl, others, by rw [length]; exact bounded _⟩
      · obtain ⟨few, g, rfl⟩ := awaits.few_holes (by omega)
        refine ⟨List.replicate left .hole, g, below, rfl, ?_, ?_⟩
        · intro x member
          rw [List.eq_of_mem_replicate member]
          exact FrameKind.noConfusion
        · rw [List.length_replicate]
          omega

private theorem exists_suffix {depth : Nat} (here : frames.reverse[depth]? = some f) :
    ∃ below, (f :: below) <:+ frames ∧ below.length = depth := by
  obtain ⟨inside, same⟩ := List.getElem?_eq_some_iff.mp here
  have split : frames.reverse.take depth ++ f :: frames.reverse.drop (depth + 1) =
      frames.reverse := by
    rw [← same, ← List.drop_eq_getElem_cons inside, List.take_append_drop]
  refine ⟨(frames.reverse.take depth).reverse, ⟨(frames.reverse.drop (depth + 1)).reverse, ?_⟩, ?_⟩
  · have back := congrArg List.reverse split
    simpa using back
  · rw [List.length_reverse, List.length_take]
    omega

private theorem Standing.shaped (standing : S.Standing stack.frames) : S.Shaped stack := by
  have busy : stack.frames ≠ [] := by
    obtain ⟨upper, g, lower, shape, _⟩ := standing.exists_module
    rw [shape]
    exact List.append_ne_nil_of_right_ne_nil _ (List.cons_ne_nil _ _)
  constructor
  · intro depth kind here
    rw [CallStack.kinds, List.getElem?_map] at here
    obtain ⟨f, found, rfl⟩ := Option.map_eq_some_iff.mp here
    by_cases solid : f = .hole
    · rw [solid]
      exact .inl rfl
    · obtain ⟨below, suffix, height⟩ := exists_suffix found
      have level := (standing.at_suffix solid suffix).level
      rw [height] at level
      right
      rw [← level]
      exact FrameKind.levels_level (Frame.kind_ne_hole solid)
  · intro upper count lower block
    exact standing.bridges block
  · intro _
    obtain ⟨upper, g, shape⟩ := standing.exists_bottom
    refine ⟨g, ?_⟩
    rw [shape, List.getLast?_concat]
  · intro _
    obtain ⟨upper, g, lower, shape, others, few⟩ := standing.exists_module
    refine ⟨upper, g, lower, shape, others, few, ?_⟩
    obtain ⟨frames, previous⟩ := stack
    change frames = _ at shape
    rw [shape]
    exact innermost_append others previous

private theorem shaped_of_empty (empty : stack.frames = []) : S.Shaped stack := by
  constructor
  · intro depth kind here
    rw [CallStack.kinds, empty] at here
    cases here
  · intro upper count lower block
    have length := congrArg List.length block.split
    have positive := block.positive
    simp only [empty, List.length_append, List.length_replicate, List.length_nil] at length
    omega
  · intro busy
    exact absurd empty busy
  · intro busy
    exact absurd empty busy

private theorem Routed.shaped (routed : S.Routed stack) : S.Shaped stack := by
  by_cases busy : stack.frames = []
  · exact shaped_of_empty busy
  · exact (routed.standing busy).shaped

/-- Whatever is in the slot, nested frames come to a stack where outcomes are routed. -/
theorem Nested.pop_routed (nested : S.Nested (top :: below)) (previous : Option Completed)
    (situation : Situation σ ω) : S.Routed (S.pop ⟨top :: below, previous⟩ situation).1 := by
  have left := S.resume_returns top previous situation
  rw [pop_cons]
  exact settle_routed nested left.1 left.2

end Setting

/-- Every stack that popping one module frame leads to, whatever the state of that frame, and every
stack of an agent, is shaped by levels. -/
theorem stack_shape (S : Setting σ ω) (situation : Situation σ ω) (n : Nat) :
    (∀ f : ModuleFrame, S.Shaped ((History.ofModule S f situation).stack n)) ∧
      S.Shaped ((⟨S, .start, situation⟩ : Life σ ω).agent n).stack := by
  constructor
  · intro f
    have routed (n : Nat) : S.Routed ((History.ofModule S f situation).stack (n + 1)) := by
      induction n with
      | zero => exact (Setting.Nested.bottom f).pop_routed none situation
      | succ n ih => exact Setting.pop_routed ih _
    cases n with
    | zero => exact (Setting.Standing.nested (.bottom f)).shaped
    | succ n => exact (routed n).shaped
  · rcases Life.sound (L := ⟨S, .start, situation⟩) rfl n with empty | ⟨routed, _⟩
    · rw [empty]
      exact Setting.shaped_of_empty rfl
    · exact routed.shaped

def attentive : Life Simulation.World Simulation.Trace :=
  let main := { Module.ofName "main" with
    rules := [.ofKind .ifThen .always [.perform "act" []]], strategy := .adaptive, exit := .never }
  ⟨Simulation.setting ⟨[], none, some main, some (.ofName "events"), none⟩ .linear false, .start,
    Simulation.situation {} ⟨Vector.replicate 8 0, 0⟩⟩

example : (attentive.agent 2).stack.kinds = [.module, .hole, .combo, .action] ∧
    (attentive.agent 6).stack.kinds = [.module, .hole, .hole, .hole, .module] := by
  decide +kernel

end CognitiveAgent
