import CognitiveAgent.Proofs.CodeOrigins
import CognitiveAgent.Proofs.PlanSources
import CognitiveAgent.Proofs.RuleOrders

/-!
Runs that do not depend on the random numbers. If all modules leave their rules as they stand, or
declare no order at all, then so does every frame on the stack, and nothing is ever shuffled. Main
statement: two runs of such a program that differ in their random numbers stay the same otherwise,
unless a plan brings in a module that declares another order.
-/

set_option autoImplicit false

namespace CognitiveAgent

variable {σ ω : Type}

def RuleOrder.isFixed : RuleOrder → Bool
  | .linear | .linearAll => true
  | .random | .randomAll | .linearRandom | .linearAllRandom => false

def Module.declaresFixed (m : Module) : Bool := m.order.all RuleOrder.isFixed

private theorem RuleOrder.shufflesAlike_of_isFixed {τ υ : Type} {order : RuleOrder}
    (fixed : order.isFixed = true) (related : Situation σ ω → Situation τ υ → Prop) :
    Exec.ShufflesAlike related order := by
  intro shuffles
  cases order with
  | linear | linearAll => simp [shufflesRules, shufflesInstantiations] at shuffles
  | random | randomAll | linearRandom | linearAllRandom => cases fixed

/-! ### Frames -/

namespace Setting

/-- All orders in the frame are fixed, those of modules written out in it and the one that it has
been pushed with. -/
structure Steady (S : Setting σ ω) (f : Frame) : Prop where
  carries : f.Carries fun m => m.declaresFixed = true
  handed : f.handed.all RuleOrder.isFixed = true
  settled : S.Settled f

variable {S : Setting σ ω} {f : Frame} {order : RuleOrder}

private theorem steady_hole : S.Steady .hole := ⟨List.forall_mem_nil _, rfl, trivial⟩

/-- A module settles on its own order, on the one that it has been pushed with or on the default. -/
theorem Steady.settles {g : ModuleFrame} (steady : S.Steady (.module g))
    (fixed : S.defaultOrder.isFixed = true) :
    ((g.activation.module.order <|> g.activation.inherited).getD S.defaultOrder).isFixed =
      true := by
  have declared : g.activation.module.declaresFixed = true :=
    steady.carries _ (List.mem_append_left _ Module.mem_parts)
  have handed : g.activation.inherited.all RuleOrder.isFixed = true := steady.handed
  unfold Module.declaresFixed at declared
  cases own : g.activation.module.order with
  | some order =>
      rw [own] at declared
      exact declared
  | none =>
      cases pushed : g.activation.inherited with
      | some order =>
          rw [pushed] at handed
          exact handed
      | none => exact fixed

private theorem Steady.goesBy (steady : S.Steady f) (fixed : S.defaultOrder.isFixed = true)
    (goesBy : S.GoesBy f order) : order.isFixed = true := by
  cases f with
  | module g =>
      rw [show order = S.governing g from goesBy, governing]
      split
      · rename_i prepared
        rw [steady.settled prepared]
        exact steady.settles fixed
      · exact steady.settles fixed
  | rule g =>
      rw [show order = g.order from goesBy]
      exact steady.handed
  | combo c | action x | hole => cases goesBy

theorem Steady.child {child : Frame} {holes : Nat} (steady : S.Steady f)
    (fixed : S.defaultOrder.isFixed = true) (awaits : S.Awaits f holes child) :
    child.handed.all RuleOrder.isFixed = true := by
  rw [awaits.handed]
  cases f with
  | module g =>
      have prepared : g.activation.prepared = true := by
        cases awaits with
        | rule active | ownCombo active | events active => exact active.prepared
      rw [Frame.order?, steady.settled prepared]
      exact steady.settles fixed
  | rule g | combo c | action x | hole => exact steady.handed

private theorem resume_steady (fixed : S.defaultOrder.isFixed = true)
    (supplies : S.Supplies fun m => m.declaresFixed = true) (steady : S.Steady f)
    (previous : Option Completed) : (S.resume f previous).Returns (Frame.GoesOnAs S.Steady) := by
  intro situation children yields
  obtain ⟨carries, pushed⟩ :=
    resume_carries supplies steady.carries previous situation children yields
  have settled := S.resume_settles steady.settled previous situation children yields
  obtain ⟨same, proper⟩ := S.resume_returns f previous situation
  have here : S.Steady (S.resume f previous situation).1.1 := by
    refine ⟨carries, ?_, settled⟩
    rw [← Frame.handed_origin, same, Frame.handed_origin]
    exact steady.handed
  refine ⟨here, ?_⟩
  rw [yields] at proper
  generalize (S.resume f previous situation).1.1 = later at here proper
  cases proper with
  | idle => exact List.forall_mem_nil _
  | push awaits =>
      intro child member
      rcases List.mem_append.mp member with hole | last
      · rw [List.eq_of_mem_replicate hole]
        exact steady_hole
      · have own := pushed child member
        rw [List.mem_singleton.mp last] at own ⊢
        exact ⟨own, here.child fixed awaits, settled_of_origin awaits.child_origin⟩

end Setting

/-! ### Runs -/

private theorem Frame.steady_of_fresh {S : Setting σ ω} {f : ModuleFrame} (fresh : f.Fresh)
    (declared : ∀ part ∈ f.activation.module.parts, part.declaresFixed = true)
    (handed : f.activation.inherited.all RuleOrder.isFixed = true) : S.Steady (.module f) := by
  refine ⟨Frame.carries_fresh fresh declared, handed, ?_⟩
  intro prepared
  cases fresh <;> cases prepared

private theorem History.steady {H : History σ ω} (fixed : H.setting.defaultOrder.isFixed = true)
    (supplies : H.setting.Supplies fun m => m.declaresFixed = true)
    (start : ∀ f ∈ H.start.frames, H.setting.Steady f) (n : Nat) :
    ∀ f ∈ (H.stack n).frames, H.setting.Steady f := by
  induction n with
  | zero => exact start
  | succ n ih =>
      refine forall_frames_succ (fun f below later children resumes steady => ?_) ih
      have goesOn :=
        Setting.resume_steady fixed supplies steady (H.stack n).previous (H.situation n)
      rw [resumes.returns] at goesOn
      exact goesOn children rfl

private theorem Life.steady {L : Life σ ω} (start : L.start = .start)
    (fixed : L.setting.defaultOrder.isFixed = true)
    (supplies : L.setting.Supplies fun m => m.declaresFixed = true) (n : Nat) :
    ∀ f ∈ ((L.agent n).poised L.setting.program).stack.frames, L.setting.Steady f := by
  cases busy : ((L.agent n).poised L.setting.program).stack.isEmpty with
  | true =>
      rw [List.isEmpty_iff.mp busy]
      exact List.forall_mem_nil _
  | false =>
      -- The step belongs to a phase, and that has begun with a frame of a registered module.
      obtain ⟨m, f, spans⟩ := exists_spans start busy
      have time : m + (n - m) = n := Nat.add_sub_cancel' spans.ordered
      have stack := spans.stack (i := n - m) (Nat.le_of_eq time)
      rw [time] at stack
      rw [← stack]
      obtain ⟨phase, opens⟩ := spans.opens
      refine History.steady fixed supplies ?_ (n - m)
      intro g member
      rw [List.mem_singleton.mp member]
      refine Frame.steady_of_fresh spans.fresh ?_ ?_
      · exact supplies.registered _ (Program.opening_registered opens)
      · rw [Program.opening_inherited opens]
        rfl

def Situation.reseeded (s : Situation σ ω) (random : Random) : Situation σ ω := { s with random }

/-- Nothing but a shuffle touches the random numbers. -/
theorem Setting.accompanies_reseeded (S : Setting σ ω) (first second : Random) :
    S.Accompanies S fun s t => s.random = first ∧ t = s.reseeded second where
  program := rfl
  defaultOrder := rfl
  ask _ _ _ together := by obtain ⟨same, rfl⟩ := together; exact ⟨rfl, same, rfl⟩
  tell _ _ _ together := by obtain ⟨same, rfl⟩ := together; exact ⟨rfl, same, rfl⟩
  log _ _ _ together := by obtain ⟨same, rfl⟩ := together; exact ⟨rfl, same, rfl⟩
  enter _ _ _ together := by obtain ⟨same, rfl⟩ := together; exact ⟨rfl, same, rfl⟩
  leave _ _ _ together := by obtain ⟨same, rfl⟩ := together; exact ⟨rfl, same, rfl⟩

/-- All orders that frames of the stack may shuffle by are fixed. -/
def CallStack.Fixed (stack : CallStack) (S : Setting σ ω) : Prop :=
  ∀ f ∈ stack.frames, ∀ order, S.GoesBy f order → order.isFixed = true

theorem CallStack.Fixed.alike {S : Setting σ ω} {stack : CallStack} (fixed : stack.Fixed S)
    {τ υ : Type} (related : Situation σ ω → Situation τ υ → Prop) (f : Frame)
    (top : stack.frames.head? = some f) (order : RuleOrder) (goesBy : S.GoesBy f order) :
    Exec.ShufflesAlike related order :=
  RuleOrder.shufflesAlike_of_isFixed (fixed f (List.mem_of_mem_head? top) order goesBy) related

theorem CallStack.Fixed.occurrences {S : Setting σ ω} {stack : CallStack} (fixed : stack.Fixed S)
    (situation : Situation σ ω) (random : Random) :
    S.occurrences stack (situation.reseeded random) = S.occurrences stack situation := by
  have noting : stack.Fixed S.traced := fixed
  have accompanies := S.traced.accompanies_reseeded situation.random random
  have together := accompanies.pop (noting.alike _) situation.unseen
    (situation.reseeded random).unseen ⟨rfl, rfl⟩
  rw [Setting.occurrences, together.2.2]
  rfl

private theorem History.reseeded {H : History σ ω} (fixed : ∀ n, (H.stack n).Fixed H.setting)
    (random : Random) (n : Nat) :
    let K : History σ ω := ⟨H.setting, H.start, H.initial.reseeded random⟩
    K.stack n = H.stack n ∧ K.situation n = (H.situation n).reseeded random ∧
      (H.situation n).random = H.initial.random ∧ K.occurrences n = H.occurrences n := by
  intro K
  have accompanies := H.setting.accompanies_reseeded H.initial.random random
  obtain ⟨stack, untouched, situation⟩ := History.runs_alike (H := H) (K := K) rfl ⟨rfl, rfl⟩
    (fun n => accompanies.pop ((fixed n).alike _)) n
  refine ⟨stack.symm, situation, untouched, ?_⟩
  rw [History.occurrences, ← stack, situation]
  exact (fixed n).occurrences (H.situation n) random

private theorem Life.reseeded {L : Life σ ω}
    (fixed : ∀ n, ((L.agent n).poised L.setting.program).stack.Fixed L.setting) (random : Random)
    (n : Nat) :
    let M : Life σ ω := ⟨L.setting, L.start, L.initial.reseeded random⟩
    M.agent n = L.agent n ∧ M.report n = L.report n ∧
      M.situation n = (L.situation n).reseeded random ∧
      (L.situation n).random = L.initial.random ∧ M.occurrences n = L.occurrences n := by
  intro M
  have accompanies := L.setting.accompanies_reseeded L.initial.random random
  obtain ⟨agent, report, untouched, situation⟩ := Life.runs_alike (L := L) (M := M) rfl ⟨rfl, rfl⟩
    (fun n => accompanies.step ((fixed n).alike _)) n
  refine ⟨agent.symm, report.symm, situation, untouched, ?_⟩
  rw [occurrences_pop, occurrences_pop, Life.pop, ← agent, situation]
  exact (fixed n).occurrences (L.situation n) random

/-- If no module of a program shuffles, no plan brings in one that does and the default is to
leave rules as they stand, then two runs that differ in their random numbers have the same stacks,
agents, reports and failures, the same worlds, records and entered modules, and the same requests
and events, and no random number is used in either. -/
theorem seed_independent (S : Setting σ ω) (default : S.defaultOrder.isFixed = true)
    (declared : ∀ m ∈ S.program.registered, ∀ part ∈ m.parts, part.declaresFixed = true)
    (situation : Situation σ ω)
    (planned : S.PlansOnly (fun step => ∀ part ∈ step.action.inner, part.declaresFixed = true)
      situation.world) (random : Random) (n : Nat) :
    (∀ f : ModuleFrame, f.Fresh → f.activation.module ∈ S.program.registered →
      f.activation.inherited.all RuleOrder.isFixed = true →
      let H := History.ofModule S f situation
      let K := History.ofModule S f (situation.reseeded random)
      K.stack n = H.stack n ∧ K.situation n = (H.situation n).reseeded random ∧
        (H.situation n).random = situation.random ∧ K.occurrences n = H.occurrences n) ∧
    let L : Life σ ω := ⟨S, .start, situation⟩
    let M : Life σ ω := ⟨S, .start, situation.reseeded random⟩
    M.agent n = L.agent n ∧ M.report n = L.report n ∧
      M.situation n = (L.situation n).reseeded random ∧
      (L.situation n).random = situation.random ∧ M.occurrences n = L.occurrences n := by
  -- In the setting without any other plans, all that comes onto a stack is steady.
  let T := S.planningBy fun step => ∀ part ∈ step.action.inner, part.declaresFixed = true
  have supplies : T.Supplies fun m => m.declaresFixed = true :=
    ⟨declared, fun m s world plan answered => world.2.now answered⟩
  constructor
  · intro f fresh own handed
    refine History.reseeded (H := History.ofModule S f situation) (fun n g member order => ?_)
      random n
    rw [History.ofModule, ← History.stack_planningBy S planned] at member
    have steady := History.steady (H := ⟨T, _, _⟩) default supplies ?_ n g member
    · exact steady.goesBy default
    · intro g alone
      rw [List.mem_singleton.mp alone]
      exact Frame.steady_of_fresh fresh (declared _ own) handed
  · refine Life.reseeded (L := ⟨S, .start, situation⟩) (fun n g member order => ?_) random n
    rw [← (Life.runs_planningBy S planned .start n).1] at member
    exact (Life.steady (L := ⟨T, _, _⟩) rfl default supplies n g member).goesBy default

def rounds : Module :=
  { Module.ofName "rounds" with
    order := some .linearAll
    rules := [.ofKind .ifThen .always [.perform "look" []],
      .ofKind .ifThen .always [.nested (.unnamed "corner" [.ofKind .ifThen .always [.exitModule]])]] }

def warden : Life Simulation.World Simulation.Trace :=
  ⟨Simulation.setting ⟨[rounds], none, some rounds, none,
      some { Module.ofName "close" with strategy := .planning }⟩ .linear false, .start,
    Simulation.situation { planner := some [.plan [⟨.nested rounds, .empty⟩]] } (.ofSeed 1)⟩

/-- Within the module written out, and within the rounds that the plan has brought in. -/
theorem seed_independent_of_warden :
    let H := History.ofModule warden.setting (.startMain rounds) warden.initial
    let K := History.ofModule warden.setting (.startMain rounds) (warden.initial.reseeded (.ofSeed 2))
    let M : Life Simulation.World Simulation.Trace :=
      ⟨warden.setting, .start, warden.initial.reseeded (.ofSeed 2)⟩
    ((H.stack 11).depth = 6 ∧ K.stack 11 = H.stack 11 ∧ (H.situation 11).random = .ofSeed 1) ∧
    (warden.agent 40).stack.depth = 9 ∧ M.agent 40 = warden.agent 40 ∧
      M.situation 40 = (warden.situation 40).reseeded (.ofSeed 2) ∧
      M.occurrences 40 = warden.occurrences 40 := by
  intro H K M
  have declared : ∀ m ∈ warden.setting.program.registered, ∀ part ∈ m.parts,
      part.declaresFixed = true := by decide +kernel
  have prepares : warden.initial.world.Prepares fun step =>
      ∀ part ∈ step.action.inner, part.declaresFixed = true := by
    intro steps member
    rw [Simulation.Preparation.plan.inj (List.mem_singleton.mp member)]
    decide +kernel
  have planned := prepares.plansOnly warden.setting.program .linear false
  have independent :=
    seed_independent warden.setting rfl declared warden.initial planned (.ofSeed 2)
  obtain ⟨stack, _, random, _⟩ := (independent 11).1 (.startMain rounds) (.startMain rounds)
    (Program.mem_registered_of_main rfl) rfl
  obtain ⟨agent, _, situation, _, occurrences⟩ := (independent 40).2
  exact ⟨⟨by decide +kernel, stack, random⟩, by decide +kernel, agent, situation, occurrences⟩

def diverting : Module :=
  { Module.unnamed "divert" [.ofKind .ifThen .always [.perform "left" []],
      .ofKind .ifThen .always [.perform "ahead" []],
      .ofKind .ifThen .always [.perform "right" []]] with order := some .random }

/-- The only module of the agent declares no order. Its plan brings in the diverting one. -/
def diverted (seed : UInt64) : Life Simulation.World Simulation.Trace :=
  ⟨Simulation.setting ⟨[], none, some { Module.ofName "main" with strategy := .planning }, none,
      none⟩ .linear false, .start,
    Simulation.situation { planner := some [.plan [⟨.nested diverting, .empty⟩]] } (.ofSeed seed)⟩

def Occurrence.performed? : Occurrence → Option String
  | .exchange (.perform action) _ => some action.name
  | _ => none

/-- The plan makes the agent depend on the random numbers, though no module of its program does. -/
theorem seed_matters_of_diverted :
    (diverted 1).setting.defaultOrder.isFixed = true ∧
    (∀ m ∈ (diverted 1).setting.program.registered, ∀ part ∈ m.parts,
      part.declaresFixed = true) ∧
    diverted 2 = ⟨(diverted 1).setting, .start, (diverted 1).initial.reseeded (.ofSeed 2)⟩ ∧
    ((diverted 1).occurrences 6).filterMap Occurrence.performed? = ["left"] ∧
    ((diverted 2).occurrences 6).filterMap Occurrence.performed? = ["ahead"] ∧
    ((diverted 1).situation 6).random ≠ .ofSeed 1 := by
  refine ⟨rfl, by decide +kernel, rfl, by decide +kernel, by decide +kernel, ?_⟩
  intro same
  have drawn := congrArg Random.drawn same
  revert drawn
  decide +kernel

end CognitiveAgent
