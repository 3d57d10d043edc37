import CognitiveAgent.Proofs.Phases
import CognitiveAgent.Proofs.StackShape

/-!
The order of rules in force. A frame that pushes another one hands its order on, and a module
settles its own when it is entered. Main statement: on every stack the order that a frame goes by
is the one found by looking down the stack for the nearest module.
-/

set_option autoImplicit false

namespace CognitiveAgent

variable {σ ω : Type}

/-- The order of the nearest module among the frames, the first of which is the top one. -/
def surrounding (frames : List Frame) : Option RuleOrder :=
  (CallStack.innermost? ⟨frames, none⟩).map (·.activation.order)

private theorem surrounding_cons {f : Frame} (other : f.kind ≠ .module) (below : List Frame) :
    surrounding (f :: below) = surrounding below := by
  cases f with
  | module g => exact absurd rfl other
  | rule g | combo c | action x | hole => rfl

private theorem surrounding_holes (holes : Nat) (below : List Frame) :
    surrounding (List.replicate holes .hole ++ below) = surrounding below := by
  induction holes with
  | zero => rfl
  | succ holes ih => exact ih

private theorem surrounding_ne_none {frames : List Frame} {g : ModuleFrame}
    (member : Frame.module g ∈ frames) : surrounding frames ≠ none := by
  induction frames with
  | nil => cases member
  | cons f below ih =>
      cases f with
      | module h => exact Option.some_ne_none _
      | rule h | combo c | action x | hole =>
          rcases List.mem_cons.mp member with same | lower
          · cases same
          · exact ih lower

namespace Frame

def order? : Frame → Option RuleOrder
  | .module g => some g.activation.order
  | .rule g => some g.order
  | .combo c => some c.order
  | .action x => some x.order
  | .hole => none

def handed : Frame → Option RuleOrder
  | .module g => g.activation.inherited
  | .rule g => some g.order
  | .combo c => some c.order
  | .action x => some x.order
  | .hole => none

theorem handed_origin (f : Frame) : f.origin.handed = f.handed := by
  cases f <;> rfl

private theorem order?_eq_handed {f : Frame} (other : f.kind ≠ .module) : f.order? = f.handed := by
  cases f with
  | module g => exact absurd rfl other
  | rule g | combo c | action x | hole => rfl

end Frame

/-- The parent hands on its own order. -/
theorem Setting.Awaits.handed {S : Setting σ ω} {f child : Frame} {holes : Nat}
    (awaits : S.Awaits f holes child) : child.handed = f.order? := by
  cases awaits <;> rfl

namespace Setting

variable (S : Setting σ ω)

/-- A module that has been entered goes by its declared order, or else by the one it was pushed
with, or else by the default. -/
def Settled : Frame → Prop
  | .module g => g.activation.prepared = true →
      g.activation.order = (g.activation.module.order <|> g.activation.inherited).getD S.defaultOrder
  | .rule _ | .combo _ | .action _ | .hole => True

/-- The frame goes by the order that the frames below it tell. -/
def Abides (below : List Frame) : Frame → Prop
  | .module g => g.activation.prepared = true →
      g.activation.order = (g.activation.module.order <|> surrounding below).getD S.defaultOrder
  | .rule g => surrounding below = some g.order
  | .combo c => surrounding below = some c.order
  | .action x => surrounding below = some x.order
  | .hole => True

variable {S} {f top later child : Frame} {frames below : List Frame}

/-- Looking down from a frame that is no hole, the first order found is the frame's own. -/
theorem Nested.surrounding (nested : S.Nested (top :: below))
    (bottom : ∀ g, [.module g] <:+ frames → g.activation.inherited = none)
    (inside : (top :: below) <:+ frames) :
    surrounding (top :: below) = top.order? ∧ top.handed = surrounding below := by
  generalize whole : top :: below = stack at nested
  -- Along the nesting: below the holes stands the parent, and it has handed its own order on.
  induction nested generalizing top below with
  | bottom g =>
      cases whole
      exact ⟨rfl, bottom g inside⟩
  | @above f child lower holes under awaits ih =>
      cases whole
      have deeper : (f :: lower) <:+ frames :=
        ((List.suffix_append _ _).trans (List.suffix_cons _ _)).trans inside
      have handed : child.handed =
          CognitiveAgent.surrounding (List.replicate holes .hole ++ f :: lower) := by
        rw [surrounding_holes, (ih deeper rfl).1, ← awaits.handed, Frame.handed_origin]
      refine ⟨?_, handed⟩
      by_cases isModule : child.kind = .module
      · cases child with
        | module g => rfl
        | rule g | combo c | action x | hole => cases isModule
      · rw [surrounding_cons isModule, ← handed, Frame.order?_eq_handed isModule]

private theorem Settled.abides (settled : S.Settled f) (handed : f.handed = surrounding below) :
    S.Abides below f := by
  cases f with
  | module g =>
      intro prepared
      rw [← handed]
      exact settled prepared
  | rule g | combo c | action x => exact handed.symm
  | hole => trivial

theorem settled_of_origin (fresh : f.origin = f) : S.Settled f := by
  cases f with
  | module g =>
      intro prepared
      rw [← Frame.module.inj fresh] at prepared
      cases prepared
  | rule g | combo c | action x | hole => trivial

variable (S)

private theorem resumeModule_settles (g : ModuleFrame) (previous : Option RunResult)
    (settled : S.Settled (.module g)) :
    (S.resumeModule g previous).Returns fun left =>
      ∀ children, left.2 = .yield children → S.Settled (.module left.1) := by
  have pursues (a : Activation) (prepared : a.prepared = true)
      (own : a.order = (a.module.order <|> a.inherited).getD S.defaultOrder) :
      (S.pursue a g.strategy previous).Returns fun left =>
        ∀ children, left.2 = .yield children → S.Settled (.module left.1) := by
    refine (S.pursue_returns prepared g.strategy previous).mono fun left served => ?_
    obtain ⟨result, passPerformed, same⟩ := served.1
    intro children _ _
    rw [same]
    exact own
  unfold resumeModule
  split
  · rename_i prepared
    exact pursues g.activation prepared (settled prepared)
  · refine (S.prepare_enters g.activation).bind fun left entered => ?_
    rcases entered with rfl | ⟨failure, failed⟩
    · exact pursues _ rfl rfl
    · obtain ⟨now, outcome⟩ := left
      change outcome = some failure at failed
      subst failed
      refine Exec.returns_pure ?_
      intro children impossible
      cases impossible

/-- A frame that goes on stays settled. -/
theorem resume_settles {f : Frame} (settled : S.Settled f) (previous : Option Completed) :
    (S.resume f previous).Returns fun left =>
      ∀ children, left.2 = .yield children → S.Settled left.1 := by
  intro situation children yields
  -- Only a module has something to settle, and a frame does not change its kind.
  have same := (S.resume_returns f previous situation).1
  cases f with
  | module g =>
      unfold resume at yields ⊢
      cases previous with
      | none => exact S.resumeModule_settles g none settled situation children yields
      | some completed =>
          cases returned : completed.result with
          | error failure =>
              simp only [returned] at yields
              cases yields
          | ok result =>
              simp only [returned] at yields ⊢
              exact S.resumeModule_settles g (some result) settled situation children yields
  | rule g | combo c | action x | hole =>
      cases left : (S.resume _ previous situation).1.1 with
      | module h =>
          rw [left] at same
          cases same
      | rule h | combo h | action h | hole => trivial

end Setting

namespace History

variable {H : History σ ω} {n : Nat}

private theorem settled_succ : (∀ f ∈ (H.stack n).frames, H.setting.Settled f) →
    ∀ f ∈ (H.stack (n + 1)).frames, H.setting.Settled f := by
  refine forall_frames_succ fun f below later children resumes settled => ?_
  constructor
  · have goesOn := H.setting.resume_settles settled (H.stack n).previous (H.situation n)
    rw [resumes.returns] at goesOn
    exact goesOn children rfl
  · intro child member
    cases resumes.proper.2 with
    | idle => cases member
    | push awaits =>
        rcases List.mem_append.mp member with hole | last
        · rw [List.eq_of_mem_replicate hole]
          trivial
        · rw [List.mem_singleton.mp last]
          exact Setting.settled_of_origin awaits.child_origin

theorem settled (start : ∀ f ∈ H.start.frames, H.setting.Settled f) (n : Nat) :
    ∀ f ∈ (H.stack n).frames, H.setting.Settled f := by
  induction n with
  | zero => exact start
  | succ n ih => exact settled_succ ih

/-- The bottom frame keeps its identity. -/
theorem origin_of_bottom (S : Setting σ ω) (f : ModuleFrame) (situation : Situation σ ω) {x : Frame}
    (bottom : [x] <:+ ((ofModule S f situation).stack n).frames) (solid : x ≠ .hole) :
    x.origin = (Frame.module f).origin := by
  induction n generalizing x with
  | zero =>
      rcases List.suffix_cons_iff.mp bottom with same | held
      · rw [(List.cons.inj same).1]
      · cases List.suffix_nil.mp held
  | succ n ih =>
      rcases pushes_or_stood bottom solid with ⟨_, _, _, _, _, under⟩ | ⟨y, same, stood⟩
      · exact absurd under.symm (List.append_ne_nil_of_right_ne_nil _ (List.cons_ne_nil _ _))
      · rw [← same]
        exact ih stood (Frame.ne_hole_of_origin same.symm solid)

private theorem abides (S : Setting σ ω) {f : ModuleFrame} (fresh : f.Fresh)
    (alone : f.activation.inherited = none) (situation : Situation σ ω) (n : Nat)
    {x : Frame} {below : List Frame}
    (suffix : (x :: below) <:+ ((ofModule S f situation).stack n).frames) :
    S.Abides below x ∧ (below ≠ [] → surrounding below ≠ none) := by
  have busy : ((ofModule S f situation).stack n).frames ≠ [] := by
    intro empty
    rw [empty] at suffix
    cases List.suffix_nil.mp suffix
  have standing := (ofModule_routed S fresh situation n).standing busy
  constructor
  · by_cases solid : x = .hole
    · rw [solid]
      trivial
    · have begins : S.Settled (.module f) := by
        intro prepared
        cases fresh <;> cases prepared
      have settled := settled (H := ofModule S f situation)
        (fun g member => by rw [List.mem_singleton.mp member]; exact begins) n x
        (suffix.subset List.mem_cons_self)
      have bottom (g : ModuleFrame) (last : [.module g] <:+ ((ofModule S f situation).stack n).frames) :
          g.activation.inherited = none := by
        have same := origin_of_bottom S f situation last Frame.noConfusion
        have handed := congrArg Frame.handed same
        rw [Frame.handed_origin, Frame.handed_origin] at handed
        exact handed.trans alone
      exact settled.abides ((standing.at_suffix solid suffix).surrounding bottom suffix).2
  · intro inside
    obtain ⟨upper, g, shape⟩ := standing.exists_bottom
    refine surrounding_ne_none (g := g) ?_
    have last : [.module g] <:+ ((ofModule S f situation).stack n).frames := ⟨upper, shape.symm⟩
    have under : below <:+ ((ofModule S f situation).stack n).frames :=
      (List.suffix_cons x below).trans suffix
    have shorter : [Frame.module g].length ≤ below.length := List.length_pos_iff.mpr inside
    exact (List.suffix_of_suffix_length_le last under shorter).subset List.mem_cons_self

end History

/-- On every stack that popping a fresh module or stepping an agent leads to, each frame goes by
the order that the nearest module below it has; a module that has been entered does so unless it
declares an order of its own, and only the bottom one falls back on the default. -/
theorem order_in_force (S : Setting σ ω) (situation : Situation σ ω) (n : Nat) :
    (∀ f : ModuleFrame, f.Fresh → f.activation.inherited = none → ∀ x below,
      (x :: below) <:+ ((History.ofModule S f situation).stack n).frames →
        S.Abides below x ∧ (below ≠ [] → surrounding below ≠ none)) ∧
    ∀ x below, (x :: below) <:+ ((⟨S, .start, situation⟩ : Life σ ω).agent n).stack.frames →
      S.Abides below x ∧ (below ≠ [] → surrounding below ≠ none) := by
  constructor
  · intro f fresh alone x below suffix
    exact History.abides S fresh alone situation n suffix
  · intro x below suffix
    let L : Life σ ω := ⟨S, .start, situation⟩
    have busy : (L.agent n).stack.isEmpty = false := by
      rw [CallStack.isEmpty, List.isEmpty_eq_false_iff]
      intro empty
      rw [empty] at suffix
      cases List.suffix_nil.mp suffix
    have poised : (L.agent n).poised S.program = L.agent n := Setting.poised_of_busy busy
    obtain ⟨m, f, spans⟩ := Life.exists_spans (L := L) rfl (by rw [poised]; exact busy)
    have time : m + (n - m) = n := Nat.add_sub_cancel' spans.ordered
    have stack := spans.stack (i := n - m) (Nat.le_of_eq time)
    rw [time, poised] at stack
    obtain ⟨phase, opens⟩ := spans.opens
    refine History.abides S spans.fresh (Program.opening_inherited opens) (L.situation m) (n - m) ?_
    rw [stack]
    exact suffix

def guided : Life Simulation.World Simulation.Trace :=
  let act := [Rule.ofKind .ifThen .always [.perform "act" []]]
  let main := { Module.ofName "main" with
    rules := act, order := some .linearAll, strategy := .adaptive, exit := .never }
  let events := { Module.ofName "events" with rules := act }
  ⟨Simulation.setting ⟨[], none, some main, some events, none⟩ .linear false, .start,
    Simulation.situation {} ⟨Vector.replicate 8 0, 0⟩⟩

def delegating : ModuleFrame :=
  let inner := Module.unnamed "inner" [.ofKind .ifThen .always [.perform "act" []]]
  .start { Module.ofName "outer" with rules := [.ofKind .ifThen .always [.nested inner]] } .empty
    none none

def delegation : History Simulation.World Simulation.Trace :=
  .ofModule (Simulation.setting ⟨[], none, none, none, none⟩ .linearRandom false) delegating
    (Simulation.situation {} ⟨Vector.replicate 8 0, 0⟩)

/-- The event module goes by the order of the main module, with three holes between the two. The
action of the inner module goes by the default, which the outer module has settled on. -/
theorem order_in_force_of_delegation :
    (∃ g below, (.module g :: below) <:+ (guided.agent 12).stack.frames ∧
      g.activation.prepared = true ∧ surrounding below = some .linearAll ∧
      g.activation.order = (g.activation.module.order <|> some .linearAll).getD .linear) ∧
    delegating.Fresh ∧ delegating.activation.inherited = none ∧
    ∃ x below, (.action x :: below) <:+ (delegation.stack 7).frames ∧ below.length = 7 ∧
      surrounding below = some .linearRandom ∧ x.order = .linearRandom := by
  have fresh : delegating.Fresh := .start _ _ _ _
  have ofAgent (n : Nat) (x : Frame) (below : List Frame)
      (suffix : (x :: below) <:+ (guided.agent n).stack.frames) : guided.setting.Abides below x :=
    ((order_in_force guided.setting guided.initial n).2 x below suffix).1
  have ofModule (n : Nat) (x : Frame) (below : List Frame)
      (suffix : (x :: below) <:+ (delegation.stack n).frames) :
      delegation.setting.Abides below x :=
    ((order_in_force delegation.setting delegation.initial n).1 delegating fresh rfl x below suffix).1
  refine ⟨?_, fresh, rfl, ?_⟩
  · have entered : (guided.agent 12).stack.frames.head?.map Frame.entry = some ["events"] := by
      decide +kernel
    have around : surrounding (guided.agent 12).stack.frames.tail = some .linearAll := by
      decide +kernel
    cases frames : (guided.agent 12).stack.frames with
    | nil => rw [frames] at entered; cases entered
    | cons f below =>
        rw [frames] at entered around
        have abides := ofAgent 12 f below ⟨[], frames.symm⟩
        cases f with
        | rule g | combo c | action x | hole => cases entered
        | module g =>
            have prepared : g.activation.prepared = true := by
              cases is : g.activation.prepared with
              | true => rfl
              | false =>
                  have none := Option.some.inj entered
                  rw [Frame.entry_of_unprepared is] at none
                  cases none
            refine ⟨g, below, List.suffix_refl _, prepared, around, ?_⟩
            have order := abides prepared
            rw [show surrounding below = some .linearAll from around] at order
            exact order
  · have top : (delegation.stack 7).frames.head?.map Frame.kind = some .action := by decide +kernel
    have depth : (delegation.stack 7).frames.tail.length = 7 := by decide +kernel
    have around : surrounding (delegation.stack 7).frames.tail = some .linearRandom := by
      decide +kernel
    cases frames : (delegation.stack 7).frames with
    | nil => rw [frames] at top; cases top
    | cons f below =>
        rw [frames] at top depth around
        have abides := ofModule 7 f below ⟨[], frames.symm⟩
        cases f with
        | rule g | combo c | module g | hole => cases top
        | action x =>
            have same : surrounding below = some x.order := abides
            refine ⟨x, below, List.suffix_refl _, depth, around, ?_⟩
            exact Option.some.inj (same.symm.trans around)

end CognitiveAgent
