import CognitiveAgent.Proofs.OwnTurns
import CognitiveAgent.Proofs.PlanLedger

/-!
The plans of a module that follows plans, in a history without failures. Each turn of the module
is one move by its ledger. Main statement: the ledger accounts for all the plans that the module
has asked for, for the steps that it has run after each of them, and for all the times that it has
judged its exit condition.
-/

set_option autoImplicit false

namespace CognitiveAgent

variable {σ ω : Type}

inductive PlanEvent where
  | asks (answer : Except PlannerFault (Option Plan))
  | runs (combo : ComboFrame)

/-- A plan that the module was given, and the steps that it has run after that. -/
def PlanRecord.events (record : PlanRecord) (a : Activation) : List PlanEvent :=
  .asks (.ok record.plan) :: record.executed.map fun step => .runs (a.stepCombo step)

private theorem PlanRecord.events_hear {record : PlanRecord} {step : PlanStep}
    (next : record.steps[record.results.length]? = some step) (a : Activation) (r : RunResult) :
    (record.hear r).events a = record.events a ++ [.runs (a.stepCombo step)] := by
  unfold events
  rw [executed_hear next, List.map_append]
  rfl

structure PlanLedger.Orderly (l : PlanLedger) : Prop where
  closed : ∀ record ∈ l.closed, record.Orderly ∧ record.ended = true
  current : ∀ record, l.current = some record → record.Orderly

def comboOf? (children : List Frame) : Option ComboFrame :=
  match children.getLast? with
  | some (.combo c) => some c
  | _ => none

namespace History

variable {H : History σ ω} {a : Activation} {l after : PlanLedger} {below : List Frame}
variable {first k m n : Nat} {children : List Frame} {previous : Option RunResult}
variable {outcome : Outcome}

def comboRun? (H : History σ ω) (i : Nat) : Option ComboFrame :=
  match (H.stack (i + 1)).frames.head? with
  | some (.combo c) => some c
  | _ => none

def planEvents (H : History σ ω) (i : Nat) : List PlanEvent :=
  (planAnswers (H.occurrences i)).map .asks ++ (H.comboRun? i).toList.map .runs

def PlanMoves (H : History σ ω) (a : Activation) (below : List Frame) (n : Nat) (l : PlanLedger)
    (outcome : Outcome) (after : PlanLedger) : Prop :=
  ∃ now later, H.Resumes n (.module now) below (.module later) outcome ∧
    a.PlanMove (H.mustStop n (.module now)) (goalAnswers (H.occurrences n))
      (planAnswers (H.occurrences n)) l outcome after

/-- What a module has planned and run before turn `n`: the ledger is empty in its first turn, and
each turn moves it on. -/
def PlanRun (H : History σ ω) (a : Activation) (below : List Frame) (first n : Nat)
    (l : PlanLedger) : Prop :=
  H.Follows below first (H.PlanMoves a below) PlanLedger.hear {} n l

def TracksPlans (H : History σ ω) (a : Activation) (l : PlanLedger) (n : Nat)
    (now : ModuleFrame) : Prop :=
  ∃ state, now.strategy = .plans state ∧
    a.TracksPlans l (state.absorb (H.setting.present now) (H.stack n).given)

/-- A turn is a move, and the next turn, if there is one, finds the ledger in order again. -/
theorem Resumes.planMoves {now : ModuleFrame} {later : Frame}
    (resumes : H.Resumes n (.module now) below later outcome) (tracks : H.TracksPlans a l n now)
    (prepared : a.prepared = true) (clean : (H.stack n).failed = false)
    (lives : ∀ failure, outcome ≠ .failed failure) :
    ∃ after, H.PlanMoves a below n l outcome after ∧
      ∀ children, outcome = .yield children → ∀ g, later = .module g →
        ∀ m, ((H.stack m).given = none ↔ children = []) →
          H.TracksPlans a (after.hear (H.stack m).given) m g := by
  obtain ⟨state, plans, tracks⟩ := tracks
  have pursued (b : Activation) :
      (H.setting.traced.pursue b now.strategy (H.stack n).given).Logs fun left seen =>
        ∃ activation later, left.1 = ⟨activation, .plans later⟩ ∧
          (state.absorb b (H.stack n).given).1.PlanTurn (state.absorb b (H.stack n).given).2
            (activation, later, left.2) seen := by
    rw [plans]
    refine (H.setting.resumePlans_turns b state _).bind fun left seen turn => ?_
    refine Exec.logs_pure ⟨left.1, left.2.1, rfl, ?_⟩
    rw [List.append_nil]
    exact turn
  obtain ⟨g, rfl, ⟨_, ⟨failure, failed⟩, _⟩ |
    ⟨entry, rest, noted, upkeep, activation, strategy, same, turn⟩⟩ :=
    resumes.pursues clean fun b _ => pursued b
  · exact absurd failed (lives failure)
  · change g = _ at same
    subst same
    obtain ⟨after, move, continues⟩ := turn.moves tracks lives
    refine ⟨after, ⟨now, _, resumes, ?_⟩, ?_⟩
    · rw [mustStop, taken_present, plans, noted, polls_append, goalAnswers_append,
        planAnswers_append, goalAnswers_of_upkeep upkeep, planAnswers_of_upkeep upkeep,
        polls_of_silent fun o member => (upkeep o member).quiet.toSilent]
      exact move
    · intro children yields g same m heard
      cases same
      have goesOn := continues children yields
      refine ⟨strategy, rfl, ?_⟩
      rw [Setting.present, if_pos (goesOn.prepared.trans prepared)]
      exact goesOn.tracks _ heard

private theorem Lifetime.tracksPlans_first {g : ModuleFrame}
    (lifetime : H.Lifetime (.module g) below first n)
    (planning : g.activation.module.strategy = .planning)
    (routed : H.setting.Routed (H.stack first)) :
    H.TracksPlans (H.setting.entered g.activation) {} first g := by
  obtain ⟨fresh, strategy, vacant⟩ := lifetime.opening routed
  rw [planning] at strategy
  refine ⟨{}, strategy, ?_⟩
  rw [vacant, ← fresh]
  constructor
  · exact ⟨_, rfl⟩
  · rfl
  · rfl
  · intro record impossible
    cases impossible

/-! ### Accounts -/

private theorem Resumes.comboRun?_eq {f : Frame} {g : ModuleFrame}
    (resumes : H.Resumes k f below (.module g) (.yield children)) :
    H.comboRun? k = comboOf? children := by
  unfold History.comboRun? comboOf?
  rw [resumes.stack_succ, CallStack.settle, List.head?_append, List.head?_reverse]
  cases children.getLast? <;> rfl

/-- A new plan, with its first step if it has one. -/
theorem begun_events {plan : Option Plan} (heard : previous = none ↔ a.planFrames plan = []) :
    ((l.begin plan).hear previous).records.flatMap (·.events a) =
      l.closed.flatMap (·.events a) ++ .asks (.ok plan) ::
        (comboOf? (a.planFrames plan)).toList.map .runs := by
  match plan with
  | some (step :: rest) =>
      cases previous with
      | none => cases heard.mp rfl
      | some r =>
          have begun : ((l.begin (some (step :: rest))).hear (some r)).records =
              l.closed ++ [PlanRecord.hear { plan := some (step :: rest) } r] := rfl
          rw [begun, List.flatMap_append, List.flatMap_singleton, PlanRecord.events_hear rfl]
          rfl
  | some [] | none =>
      rw [heard.mpr rfl]
      exact List.flatMap_append

theorem PlanMoves.events (moves : H.PlanMoves a below k l (.yield children) after)
    (runs : H.Runs below k children previous m) :
    (after.hear previous).records.flatMap (·.events a) =
      l.records.flatMap (·.events a) ++ H.planEvents k := by
  obtain ⟨now, later, resumes, move⟩ := moves
  unfold planEvents
  rw [resumes.comboRun?_eq]
  cases move with
  | @steps record step free current goesOn next unasked unplanned =>
      cases previous with
      | none => cases runs.heard.mp rfl
      | some r =>
          have before : l.records = l.closed ++ [record] := by simp [PlanLedger.records, current]
          have now : (l.hear (some r)).records = l.closed ++ [record.hear r] := by
            simp [PlanLedger.records, PlanLedger.hear, current]
          rw [unplanned, before, now, List.flatMap_append, List.flatMap_append,
            List.flatMap_singleton, List.flatMap_singleton, PlanRecord.events_hear next,
            List.append_assoc]
          rfl
  | replans free current ended goesOn planned =>
      rw [begun_events runs.heard, planned]
      rfl
  | begins free first unasked planned =>
      have closed : l.records = l.closed := by simp [PlanLedger.records, first]
      rw [begun_events runs.heard, planned, closed]
      rfl

/-- The exit condition is judged once for each plan that is done with. -/
theorem PlanMoves.judged (moves : H.PlanMoves a below k l (.yield children) after) :
    (if a.module.exit = .noGoals then List.replicate (after.hear previous).closed.length true
      else []) =
    (if a.module.exit = .noGoals then List.replicate l.closed.length true else []) ++
      goalAnswers (H.occurrences k) := by
  have unheard : (after.hear previous).closed = after.closed := by cases previous <;> rfl
  obtain ⟨now, later, resumes, move⟩ := moves
  rw [unheard]
  cases move with
  | steps free current goesOn next unasked unplanned => rw [unasked, List.append_nil]
  | begins free first unasked planned => rw [unasked, List.append_nil]; rfl
  | @replans record plan free current ended goesOn planned =>
      have longer : (l.close.begin plan).closed.length = l.closed.length + 1 := by
        simp [PlanLedger.close, PlanLedger.begin, current]
      rw [longer, List.replicate_succ']
      unfold Activation.Judged at goesOn
      cases exit : a.module.exit with
      | noGoals => simp only [exit] at goesOn; simp [goesOn]
      | noAction => simp only [exit] at goesOn; simp [goesOn]
      | always => simp only [exit] at goesOn; simp [goesOn]
      | never => simp only [exit] at goesOn; simp [goesOn]

private theorem begun_orderly {plan : Option Plan}
    (closed : ∀ record ∈ l.closed, record.Orderly ∧ record.ended = true)
    (heard : previous = none ↔ a.planFrames plan = []) :
    ((l.begin plan).hear previous).Orderly := by
  cases previous with
  | none =>
      constructor
      · exact closed
      · intro record same
        cases same
        exact .fresh plan
  | some r =>
      constructor
      · exact closed
      · intro record same
        cases same
        apply (PlanRecord.Orderly.fresh plan).hear
        match plan with
        | some (step :: rest) => rfl
        | some [] | none => cases heard.mpr rfl

theorem PlanMoves.orderly (moves : H.PlanMoves a below k l (.yield children) after)
    (orderly : l.Orderly) (runs : H.Runs below k children previous m) :
    (after.hear previous).Orderly := by
  obtain ⟨now, later, resumes, move⟩ := moves
  cases move with
  | @steps record step free current goesOn next unasked unplanned =>
      cases previous with
      | none => exact orderly
      | some r =>
          constructor
          · exact orderly.closed
          · intro other same
            simp only [PlanLedger.hear, current, Option.map_some, Option.some.injEq] at same
            rw [← same]
            exact (orderly.current record current).hear goesOn r
  | @replans record plan free current ended goesOn planned =>
      apply begun_orderly _ runs.heard
      intro other member
      simp only [PlanLedger.close, current, Option.toList_some, List.mem_append,
        List.mem_singleton] at member
      rcases member with earlier | rfl
      · exact orderly.closed other earlier
      · exact ⟨orderly.current other current, ended⟩
  | begins free first unasked planned => exact begun_orderly orderly.closed runs.heard

theorem PlanRun.events (planRun : H.PlanRun a below first n l) :
    (H.turns below first n).flatMap H.planEvents = l.records.flatMap (·.events a) := by
  apply Follows.accounts planRun
  · rfl
  · intro k m l after children previous moves runs
    exact moves.events runs

theorem PlanRun.judged (planRun : H.PlanRun a below first n l) :
    (H.turns below first n).flatMap (fun i => goalAnswers (H.occurrences i)) =
      if a.module.exit = .noGoals then List.replicate l.closed.length true else [] := by
  apply Follows.accounts planRun
  · split <;> rfl
  · intro k m l after children previous moves runs
    exact moves.judged

theorem PlanRun.orderly (planRun : H.PlanRun a below first n l) : l.Orderly := by
  apply Follows.invariant planRun
  · constructor
    · intro record member
      cases member
    · intro record impossible
      cases impossible
  · intro k m l after children previous orderly moves runs
    exact moves.orderly orderly runs

/-- What a module that follows plans has done before turn `n`, and does in it, in a history without
failures. For each plan that it has asked for, it has run the first steps of that plan in order,
up to the first one that did nothing or to the last, and only then has it been done with the plan.
The exit condition is judged once for each plan that is done with, over what its steps have
performed, and at no other time. Then the module leaves if the condition holds, and else asks for
exactly one new plan. -/
theorem plan_discipline (S : Setting σ ω) {f : ModuleFrame} (fresh : f.Fresh)
    (situation : Situation σ ω) {g : ModuleFrame} {below : List Frame} {first n : Nat}
    (planning : g.activation.module.strategy = .planning)
    (lifetime : (ofModule S f situation).Lifetime (.module g) below first n)
    (own : ((ofModule S f situation).stack n).depth = below.length + 1)
    (clean : ((ofModule S f situation).stack (n + 1)).failed = false) :
    let H := ofModule S f situation
    let a := S.entered g.activation
    ∃ l outcome after, H.PlanRun a below first n l ∧ H.PlanMoves a below n l outcome after ∧
      (H.turns below first n).flatMap H.planEvents = l.records.flatMap (·.events a) ∧
      (H.turns below first n).flatMap (fun i => goalAnswers (H.occurrences i)) =
        (if a.module.exit = .noGoals then List.replicate l.closed.length true else []) ∧
      l.Orderly := by
  intro H a
  have start : H.setting.Routed H.start := .ready (.bottom f) fresh.waits
  have before := unfailed_of_le (Nat.le_succ n) clean
  obtain ⟨x, frames, same⟩ := lifetime.frames own
  cases x with
  | rule x | combo c | action x | hole => cases same
  | module now =>
      have opens := lifetime.tracksPlans_first planning (stack_routed start first)
      obtain ⟨l, planRun, tracks⟩ : ∃ l, H.PlanRun a below first n l ∧ H.TracksPlans a l n now := by
        apply lifetime.exists_follows start rfl (Nat.le_refl 1) frames before opens
        intro k l old later children resumes tracks clean
        obtain ⟨after, moves, leads⟩ := resumes.planMoves tracks rfl clean (fun _ => nofun)
        exact ⟨after, moves, leads children rfl later rfl⟩
      obtain ⟨later, outcome, resumes⟩ := exists_resumes frames
      have lives : ∀ failure, outcome ≠ .failed failure := by
        rintro failure rfl
        rw [resumes.stack_succ] at clean
        cases clean
      obtain ⟨after, move, _⟩ := resumes.planMoves tracks rfl before lives
      exact ⟨l, outcome, after, planRun, move, planRun.events, planRun.judged, planRun.orderly⟩

def follower : Module :=
  { Module.ofName "follower" with strategy := .planning, exit := .noAction }

/-- The second step of the first plan does nothing, and then there is no plan to be had. -/
def following : History Simulation.World Simulation.Trace :=
  let known : Term := .atom "known"
  let steps : Plan := [⟨.insert known, .empty⟩, ⟨.guarded "act" [] (.goal known), .empty⟩,
    ⟨.delete known, .empty⟩]
  ofModule (Simulation.setting ⟨[], none, none, none, none⟩ .linear false)
    (.start follower .empty none none)
    (Simulation.situation { planner := some [.plan steps, .nothing] } ⟨Vector.replicate 8 0, 0⟩)

/-- The module has asked for two plans and run two steps of the first one before it leaves. -/
theorem plan_discipline_of_follower :
    let a := following.setting.entered (ModuleFrame.start follower .empty none none).activation
    ∃ l outcome after, following.PlanRun a [] 0 11 l ∧ following.PlanMoves a [] 11 l outcome after ∧
      (following.turns [] 0 11).flatMap following.planEvents = l.records.flatMap (·.events a) ∧
      (l.records.flatMap (·.events a)).length = 4 ∧ l.Orderly := by
  intro a
  have stays : ∀ i, i < 12 → 0 < (following.stack i).depth := by decide +kernel
  have lifetime : following.Lifetime (.module (.start follower .empty none none)) [] 0 11 :=
    ⟨rfl, rfl, Nat.zero_le 11, fun i _ before => stays i (by omega)⟩
  have own : (following.stack 11).depth = 1 := by decide +kernel
  have clean : (following.stack 12).failed = false := by decide +kernel
  have count : ((following.turns [] 0 11).flatMap following.planEvents).length = 4 := by
    decide +kernel
  obtain ⟨l, outcome, after, planRun, move, events, _, orderly⟩ :=
    plan_discipline _ (.start follower .empty none none) _ rfl lifetime own clean
  exact ⟨l, outcome, after, planRun, move, events, events ▸ count, orderly⟩

end History

end CognitiveAgent
