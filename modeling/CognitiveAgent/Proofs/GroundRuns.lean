import CognitiveAgent.Proofs.GroundTurns
import CognitiveAgent.Proofs.Phases
import CognitiveAgent.Proofs.Returns
import CognitiveAgent.Proofs.StackShape

/-!
Ground runs. Where the answers to conditions and the steps of plans bind variables to closed terms
only, so do all substitutions on the stack and all that a learner is offered. Main statement: in
such a run every instantiation comes to an end, although chains of bindings are followed without a
bound, so every turn returns, and a called module binds its parameters and nothing else.
-/

set_option autoImplicit false

namespace CognitiveAgent

variable {σ ω : Type}

/-! ### Substitutions in use -/

/-- The substitutions that are applied to terms in a turn: those that the frames hold, those that
are answered or offered in the turn, and what comes of merging them or of matching parameters. -/
inductive InUse (frames : List Frame) (seen : List Occurrence) : Substitution → Prop where
  | empty : InUse frames seen .empty
  | held {f : Frame} {s : Substitution} (member : f ∈ frames) (holds : s ∈ f.substitutions) :
      InUse frames seen s
  | answer {condition : Condition} {incoming s : Substitution} {e : Evaluation}
      (asked : .exchange (.evaluate condition incoming) (.ok e) ∈ seen) (given : s ∈ e.answers) :
      InUse frames seen s
  | step {m : Module} {incoming : Substitution} {plan : Plan} {step : PlanStep}
      (asked : .exchange (.plan m incoming) (.ok (some plan)) ∈ seen) (given : step ∈ plan) :
      InUse frames seen step.substitution
  | candidate {o : Occurrence} {c : Candidate} (asked : o ∈ seen) (offered : c ∈ o.offered) :
      InUse frames seen c.substitution
  -- One binding after the other is merged into a substitution.
  | merged {s other result : Substitution} {binding : String × Term} (into : InUse frames seen s)
      (source : InUse frames seen other) (member : binding ∈ other.bindings)
      (unified : (Term.var binding.1).unify binding.2 s = some result) : InUse frames seen result
  -- A formal parameter, or a part of it, is matched with a value, which has been found closed.
  | matched {s result : Substitution} {formal value : Term} (into : InUse frames seen s)
      (closed : value.isClosed = true) (unified : formal.unify value s = some result) :
      InUse frames seen result

theorem InUse.isClosed {frames : List Frame} {seen : List Occurrence} {s : Substitution}
    (ground : ∀ f ∈ frames, f.Ground) (answers : ∀ o ∈ seen, o.Grounding)
    (offers : ∀ o ∈ seen, o.OffersClosed) (used : InUse frames seen s) : s.IsClosed := by
  induction used with
  | empty => exact Substitution.isClosed_empty
  | held member holds => exact ground _ member _ holds
  | answer asked given => exact (answers _ asked _ given).1
  | step asked given => exact answers _ asked _ given
  | candidate asked offered => exact offers _ asked _ offered
  | merged _ _ member unified ih other => exact (Term.unify_closed ih (other _ member) unified).1
  | matched _ closed unified ih => exact (Term.unify_closed ih closed unified).1

/-! ### Called modules -/

theorem Setting.Awaits.call {S : Setting σ ω} {x : ActionFrame} {holes : Nat} {g : ModuleFrame}
    (awaits : S.Awaits (.action x) holes (.module g)) :
    ∃ params, g.activation.module.bindCall params x.substitution =
      .ok g.activation.substitution := by
  cases awaits with
  | module _ _ bound _ => exact ⟨_, bound⟩

/-- A module right above an action has been called by it. -/
theorem Setting.Nested.call {S : Setting σ ω} {g : ModuleFrame} {x : ActionFrame}
    {below : List Frame} (nested : S.Nested (.module g :: .action x :: below)) :
    ∃ params, g.activation.module.bindCall params x.substitution =
      .ok g.activation.substitution := by
  generalize whole : Frame.module g :: .action x :: below = stack at nested
  cases nested with
  | bottom h => cases whole
  | @above f child lower holes under awaits =>
      cases holes with
      | succ holes => cases whole
      | zero =>
          cases whole
          exact awaits.call

/-- A named module that has been called binds its own variables, to closed terms. -/
theorem Setting.Nested.parameters {S : Setting σ ω} {g : ModuleFrame} {x : ActionFrame}
    {below : List Frame} (nested : S.Nested (.module g :: .action x :: below))
    (named : g.activation.module.anonymous = false) :
    g.activation.substitution.IsClosed ∧
      ∀ v, v ∈ g.activation.substitution.domain ↔ v ∈ g.activation.module.parameterVars := by
  obtain ⟨params, bound⟩ := nested.call
  rw [Module.bindCall, named] at bound
  exact Module.bindParameters_closed bound

/-! ### Runs -/

/-- All bindings on the stack are closed, and a called module binds exactly its parameters. -/
structure GroundState (frames : List Frame) : Prop where
  held : ∀ f ∈ frames, ∀ s ∈ f.substitutions, s.IsClosed
  called : ∀ g x below, (.module g :: .action x :: below) <:+ frames →
    g.activation.module.anonymous = false →
      ∀ v, v ∈ g.activation.substitution.domain ↔ v ∈ g.activation.module.parameterVars

/-- What is offered in a turn is closed, and every instantiation comes to an end. -/
structure GroundTurn (frames : List Frame) (seen : List Occurrence) : Prop where
  offered : ∀ o ∈ seen, o.OffersClosed
  applied : ∀ s, InUse frames seen s → ∀ t : Term, t.Resolves s (t.apply s)

/-- A turn returns if every instantiation with what is in use comes to an end. -/
theorem History.tame_of_inUse {H : History σ ω} {n : Nat}
    (applied : ∀ s, InUse (H.stack n).frames (H.occurrences n) s →
      ∀ t : Term, t.Resolves s (t.apply s)) : H.Tame n := by
  have acyclic {s : Substitution} (used : InUse (H.stack n).frames (H.occurrences n) s) :
      s.Acyclic :=
    Substitution.acyclic_of_endsWithin fun x =>
      (applied s used (.var x)).endsWithin x (List.mem_singleton_self x)
  refine ⟨fun f top s holds => acyclic (.held (List.mem_of_mem_head? top) holds), ?_⟩
  intro o occurs
  unfold Occurrence.Tame
  split
  · exact fun answer given => acyclic (.answer occurs given)
  · exact fun step given => acyclic (.step occurs given)
  · intro c chosen
    exact (acyclic (.candidate occurs (List.mem_of_getElem? chosen))).all_resolve _
  · trivial

private theorem groundTurn {frames : List Frame} {seen : List Occurrence}
    (ground : ∀ f ∈ frames, f.Ground)
    (answers : ∀ o ∈ seen, o.Grounding) (offers : ∀ o ∈ seen, o.OffersClosed) :
    GroundTurn frames seen :=
  ⟨offers, fun _ used => Term.resolves_apply (used.isClosed ground answers offers)⟩

namespace History

variable {H : History σ ω} {n : Nat}

theorem Resumes.ground {f later : Frame} {below : List Frame} {outcome : Outcome}
    (resumes : H.Resumes n f below later outcome) (ground : f.Ground)
    (answers : ∀ o ∈ H.occurrences n, o.Grounding) :
    (later.Ground ∧ outcome.Ground) ∧ ∀ o ∈ H.occurrences n, o.OffersClosed :=
  resumes.occurs (H.setting.resume_grounds f (H.stack n).previous) ground answers

private theorem ground_succ (answers : ∀ o ∈ H.occurrences n, o.Grounding)
    (ground : ∀ f ∈ (H.stack n).frames, f.Ground) : ∀ f ∈ (H.stack (n + 1)).frames, f.Ground :=
  forall_frames_succ (fun _ _ _ _ resumes own => (resumes.ground own answers).1) ground

private theorem ground_frames (start : ∀ f ∈ H.start.frames, f.Ground)
    (answers : ∀ i < n, ∀ o ∈ H.occurrences i, o.Grounding) :
    ∀ f ∈ (H.stack n).frames, f.Ground := by
  induction n with
  | zero => exact start
  | succ n ih =>
      exact ground_succ (answers n (Nat.lt_succ_self n))
        (ih fun i before => answers i (Nat.lt_succ_of_lt before))

theorem offersClosed (ground : ∀ f ∈ (H.stack n).frames, f.Ground)
    (answers : ∀ o ∈ H.occurrences n, o.Grounding) :
    ∀ o ∈ H.occurrences n, o.OffersClosed := by
  cases frames : (H.stack n).frames with
  | nil =>
      rw [History.occurrences, H.setting.occurrences_of_empty frames]
      exact fun o member => absurd member List.not_mem_nil
  | cons f below =>
      obtain ⟨later, outcome, resumes⟩ := exists_resumes frames
      rw [frames] at ground
      exact (resumes.ground (ground f List.mem_cons_self) answers).2

private theorem ofModule_ground (S : Setting σ ω) {f : ModuleFrame} (fresh : f.Fresh)
    (closed : f.activation.substitution.IsClosed) (situation : Situation σ ω)
    (answers : ∀ i < n, ∀ o ∈ (ofModule S f situation).occurrences i, o.Grounding) :
    GroundState ((ofModule S f situation).stack n).frames ∧
      ((∀ o ∈ (ofModule S f situation).occurrences n, o.Grounding) →
        GroundTurn ((ofModule S f situation).stack n).frames
          ((ofModule S f situation).occurrences n)) := by
  have start : ∀ g ∈ (ofModule S f situation).start.frames, g.Ground := by
    intro g member
    rw [List.mem_singleton.mp member]
    cases fresh with
    | start m s inherited focus => exact Frame.ground_start m closed inherited focus
    | startMain m => exact Frame.ground_start m Substitution.isClosed_empty none none
  have ground := ground_frames start answers
  refine ⟨⟨ground, ?_⟩, fun now => groundTurn ground now (offersClosed ground now)⟩
  intro g x below suffix named
  have busy : ((ofModule S f situation).stack n).frames ≠ [] := by
    intro empty
    rw [empty] at suffix
    cases List.suffix_nil.mp suffix
  have standing := (ofModule_routed S fresh situation n).standing busy
  exact ((standing.at_suffix Frame.noConfusion suffix).parameters named).2

theorem ofModule_returns (S : Setting σ ω) {f : ModuleFrame} (fresh : f.Fresh)
    (closed : f.activation.substitution.IsClosed) (situation : Situation σ ω)
    (answers : ∀ i < n, ∀ o ∈ (ofModule S f situation).occurrences i, o.Grounding) :
    ((ofModule S f situation).after? n).isSome = true := by
  induction n with
  | zero => rfl
  | succ n ih =>
      have before := fun i (earlier : i < n) => answers i (Nat.lt_succ_of_lt earlier)
      have turn := (ofModule_ground S fresh closed situation before).2
        (answers n (Nat.lt_succ_self n))
      exact (tame_of_inUse turn.applied).after?_succ (ih before)

end History

namespace Life

private theorem ground_turns {L : Life σ ω} (start : L.start = .start) {n : Nat}
    (answers : ∀ i < n, ∀ o ∈ L.occurrences i, o.Grounding) :
    GroundState ((L.agent n).poised L.setting.program).stack.frames ∧
      ((∀ o ∈ L.occurrences n, o.Grounding) →
        GroundTurn ((L.agent n).poised L.setting.program).stack.frames (L.occurrences n)) := by
  cases idle : ((L.agent n).poised L.setting.program).stack.isEmpty with
  | true =>
      have none : ((L.agent n).poised L.setting.program).stack.frames = [] :=
        List.isEmpty_iff.mp idle
      have silent : L.occurrences n = [] := occurrences_of_idle idle
      rw [none, silent]
      have vacant (f : Frame) (member : f ∈ []) : f.Ground := absurd member List.not_mem_nil
      refine ⟨⟨vacant, fun g x below suffix => ?_⟩, fun now => groundTurn vacant now ?_⟩
      · cases List.suffix_nil.mp suffix
      · exact fun o member => absurd member List.not_mem_nil
  | false =>
      -- The step belongs to the history of the frame that its phase has begun with.
      obtain ⟨m, f, spans⟩ := exists_spans start idle
      have time : m + (n - m) = n := Nat.add_sub_cancel' spans.ordered
      have closed : f.activation.substitution.IsClosed := by
        obtain ⟨phase, opens⟩ := spans.opens
        rw [Program.opening_substitution opens]
        exact Substitution.isClosed_empty
      have earlier : ∀ i < n - m,
          ∀ o ∈ (History.ofModule L.setting f (L.situation m)).occurrences i, o.Grounding := by
        intro i before
        have inside : m + i < n := by omega
        rw [spans.occurrences (Nat.le_of_lt inside)]
        exact answers (m + i) inside
      have grounded := History.ofModule_ground L.setting spans.fresh closed (L.situation m) earlier
      rw [spans.stack (Nat.le_of_eq time), spans.occurrences (Nat.le_of_eq time), time] at grounded
      exact grounded

theorem returns_of_grounding {L : Life σ ω} (start : L.start = .start) {n : Nat}
    (answers : ∀ i < n, ∀ o ∈ L.occurrences i, o.Grounding) : (L.after? n).isSome = true := by
  induction n with
  | zero => rfl
  | succ n ih =>
      have before := fun i (earlier : i < n) => answers i (Nat.lt_succ_of_lt earlier)
      have applied := ((ground_turns start before).2 (answers n (Nat.lt_succ_self n))).applied
      rw [occurrences_pop] at applied
      have tame : L.Tame n := History.tame_of_inUse applied
      exact tame.after?_succ (ih before)

end Life

/-- If the turns before answer with closed bindings only, they all return, and all bindings on the
stack are closed; if the next turn does so, too, all that it offers and applies is closed. This holds
of every fresh module frame with closed bindings and of every agent, whose stack is here as the next
step finds it. -/
theorem ground_runs (S : Setting σ ω) (situation : Situation σ ω) (n : Nat) :
    (∀ f : ModuleFrame, f.Fresh → f.activation.substitution.IsClosed →
      let H := History.ofModule S f situation
      (∀ i < n, ∀ o ∈ H.occurrences i, o.Grounding) →
        GroundState (H.stack n).frames ∧ H.after? n = some (H.stack n, H.situation n) ∧
        ((∀ o ∈ H.occurrences n, o.Grounding) →
          GroundTurn (H.stack n).frames (H.occurrences n))) ∧
    let L : Life σ ω := ⟨S, .start, situation⟩
    (∀ i < n, ∀ o ∈ L.occurrences i, o.Grounding) →
      GroundState ((L.agent n).poised S.program).stack.frames ∧
      L.after? n = some (L.agent n, L.situation n) ∧
      ((∀ o ∈ L.occurrences n, o.Grounding) →
        GroundTurn ((L.agent n).poised S.program).stack.frames (L.occurrences n)) := by
  constructor
  · intro f fresh closed H answers
    obtain ⟨state, turn⟩ := History.ofModule_ground S fresh closed situation answers
    have returns := History.ofModule_returns S fresh closed situation answers
    exact ⟨state, History.after?_of_isSome returns, turn⟩
  · intro L answers
    obtain ⟨state, turn⟩ := Life.ground_turns (L := L) rfl answers
    exact ⟨state, Life.after?_of_isSome (Life.returns_of_grounding rfl answers), turn⟩

def visiting : Module :=
  { Module.ofName "visit" with
    parameters := [.list [.var "P", .var "Q"]]
    rules := [.ofKind .ifThen .always [.perform "go" [.var "P", .var "Q"]]] }

def surveying : Module :=
  let somewhere := Condition.belief (.compound "at" [.var "X"])
  { Module.ofName "survey" with
    strategy := .adaptive, exit := .noAction
    rules := [
      .ofKind (.listallDo "L") somewhere [.callNamed "visit" [.var "L"]],
      .ofKind .ifThen somewhere [.callNamed "visit" [.list [.var "X", .var "X"]]]] }

def surveyor : Life Simulation.World Simulation.Trace :=
  let place (name : String) : Term := .compound "at" [.atom name]
  ⟨Simulation.setting ⟨[visiting], none, some surveying, none, none⟩ .linear false, .start,
    Simulation.situation { mind := { beliefs := [place "a", place "b"] } }
      ⟨Vector.replicate 8 0, 0⟩⟩

def survey : History Simulation.World Simulation.Trace :=
  .ofModule surveyor.setting (.startMain surveying) surveyor.initial

/-- The first step offers three closed candidates. The first of them, which binds a variable to the
list of all places, calls the other module, and this binds its two variables. -/
theorem ground_runs_of_surveyor :
    (∀ i < 4, ∀ o ∈ surveyor.occurrences i, o.Grounding) ∧
    (∃ o ∈ surveyor.occurrences 0, o.offered.length = 3 ∧
      ∀ c ∈ o.offered, c.substitution.IsClosed) ∧
    (∃ g x below, (.module g :: .action x :: below) <:+
        ((surveyor.agent 3).poised surveyor.setting.program).stack.frames ∧
      g.activation.module.anonymous = false ∧ g.activation.module.parameterVars = ["P", "Q"] ∧
      ∀ v, v ∈ g.activation.substitution.domain ↔ v ∈ g.activation.module.parameterVars) ∧
    (ModuleFrame.startMain surveying).Fresh ∧
    (ModuleFrame.startMain surveying).activation.substitution.IsClosed ∧
    (∀ i < 8, ∀ o ∈ survey.occurrences i, o.Grounding) ∧ (survey.stack 7).frames.length = 7 ∧
    GroundState (survey.stack 7).frames ∧
    survey.after? 7 = some (survey.stack 7, survey.situation 7) ∧
    GroundTurn (survey.stack 7).frames (survey.occurrences 7) := by
  have fresh : (ModuleFrame.startMain surveying).Fresh := .startMain _
  have closed : (ModuleFrame.startMain surveying).activation.substitution.IsClosed := by decide
  have life (n : Nat) (answers : ∀ i < n, ∀ o ∈ surveyor.occurrences i, o.Grounding) :
      GroundState ((surveyor.agent n).poised surveyor.setting.program).stack.frames ∧
      surveyor.after? n = some (surveyor.agent n, surveyor.situation n) ∧
      ((∀ o ∈ surveyor.occurrences n, o.Grounding) →
        GroundTurn ((surveyor.agent n).poised surveyor.setting.program).stack.frames
          (surveyor.occurrences n)) :=
    (ground_runs surveyor.setting surveyor.initial n).2 answers
  have history (n : Nat) (answers : ∀ i < n, ∀ o ∈ survey.occurrences i, o.Grounding) :
      GroundState (survey.stack n).frames ∧
      survey.after? n = some (survey.stack n, survey.situation n) ∧
      ((∀ o ∈ survey.occurrences n, o.Grounding) →
        GroundTurn (survey.stack n).frames (survey.occurrences n)) :=
    (ground_runs surveyor.setting surveyor.initial n).1 _ fresh closed answers
  have answers : ∀ i < 4, ∀ o ∈ surveyor.occurrences i, o.Grounding := by decide +kernel
  have alone : ∀ i < 8, ∀ o ∈ survey.occurrences i, o.Grounding := by decide +kernel
  have depth : (survey.stack 7).frames.length = 7 := by decide +kernel
  obtain ⟨held, returns, turn⟩ := history 7 fun i before => alone i (by omega)
  refine ⟨answers, ?_, ?_, fresh, closed, alone, depth, held, returns, turn (alone 7 (by omega))⟩
  · have offers : (surveyor.occurrences 0).any (fun o => o.offered.length == 3) = true := by
      decide +kernel
    obtain ⟨o, member, three⟩ := List.any_eq_true.mp offers
    have turn := (life 0 fun i before => absurd before (Nat.not_lt_zero i)).2.2
      (answers 0 (by omega))
    exact ⟨o, member, eq_of_beq three, turn.offered o member⟩
  · have state := (life 3 fun i before => answers i (by omega)).1
    have kinds : (((surveyor.agent 3).poised surveyor.setting.program).stack.frames.map
        Frame.kind).take 2 = [.module, .action] := by
      decide +kernel
    have top : ((surveyor.agent 3).poised surveyor.setting.program).stack.innermost?.map
        (fun g => (g.activation.module.anonymous, g.activation.module.parameterVars)) =
          some (false, ["P", "Q"]) := by
      decide +kernel
    unfold CallStack.innermost? at top
    generalize ((surveyor.agent 3).poised surveyor.setting.program).stack.frames = frames
      at state kinds top ⊢
    cases frames with
    | nil => cases kinds
    | cons f rest =>
        cases rest with
        | nil => cases f <;> cases kinds
        | cons next below =>
            obtain ⟨isModule, isAction⟩ := List.cons.inj kinds
            cases f with
            | rule _ | combo _ | action _ | hole => cases isModule
            | module g =>
                cases next with
                | module _ | rule _ | combo _ | hole => cases isAction
                | action x =>
                    obtain ⟨named, own⟩ := Prod.mk.inj (Option.some.inj top)
                    exact ⟨g, x, below, List.suffix_refl _, named, own,
                      state.called g x below (List.suffix_refl _) named⟩

end CognitiveAgent
