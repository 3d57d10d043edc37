import CognitiveAgent.Proofs.PassLedger

/-!
A ledger for a module that follows plans. It holds, for each plan that the module has asked for,
the results of the steps that have been run. Main statement: what such a module does when it is
resumed is one move by the ledger, and the ledger goes on telling the state of the module.
-/

set_option autoImplicit false

namespace CognitiveAgent

variable {σ ω : Type}

def Occurrence.plan? : Occurrence → Option (Except PlannerFault (Option Plan))
  | .exchange (.plan ..) answer => some answer
  | _ => none

def planAnswers (seen : List Occurrence) : List (Except PlannerFault (Option Plan)) :=
  seen.filterMap Occurrence.plan?

@[simp]
theorem planAnswers_nil : planAnswers [] = [] := rfl

@[simp]
theorem planAnswers_append (seen more : List Occurrence) :
    planAnswers (seen ++ more) = planAnswers seen ++ planAnswers more := List.filterMap_append

@[simp]
theorem planAnswers_stopSignal (answer : Bool) (seen : List Occurrence) :
    planAnswers (.exchange .stopSignal answer :: seen) = planAnswers seen := rfl

@[simp]
theorem planAnswers_plan (m : Module) (substitution : Substitution)
    (answer : Except PlannerFault (Option Plan)) (seen : List Occurrence) :
    planAnswers (.exchange (.plan m substitution) answer :: seen) = answer :: planAnswers seen :=
  rfl

@[simp]
theorem goalAnswers_plan (m : Module) (substitution : Substitution)
    (answer : Except PlannerFault (Option Plan)) (seen : List Occurrence) :
    goalAnswers (.exchange (.plan m substitution) answer :: seen) = goalAnswers seen :=
  rfl

theorem planAnswers_of_upkeep {seen : List Occurrence} (upkeep : ∀ o ∈ seen, o.Upkeep) :
    planAnswers seen = [] := by
  apply List.filterMap_eq_nil_iff.mpr
  intro o member
  cases upkeep o member <;> rfl

theorem goalAnswers_of_upkeep {seen : List Occurrence} (upkeep : ∀ o ∈ seen, o.Upkeep) :
    goalAnswers seen = [] :=
  goalAnswers_of_quiet fun o member => (upkeep o member).quiet

namespace Activation

variable {a : Activation} {outcome : Outcome} {seen : List Occurrence}

theorem Judges.unplanned {holds : Bool} (judges : a.Judges holds seen) : planAnswers seen = [] := by
  rcases judges.asks with rfl | rfl
  · rfl
  · rfl

theorem Leaves.unplanned (leaves : a.Leaves outcome seen) : planAnswers seen = [] := by
  obtain ⟨_, rest, rfl, upkeep, _⟩ := leaves
  rw [planAnswers_stopSignal]
  exact planAnswers_of_upkeep upkeep

def stepCombo (a : Activation) (step : PlanStep) : ComboFrame :=
  { combo := [step.action], substitution := step.substitution, focus := none, order := a.order }

def stepFrames (a : Activation) (step : PlanStep) : List Frame := [.hole, .combo (a.stepCombo step)]

/-- What the module pushes when it has been given a plan: the first step, if there is one. -/
def planFrames (a : Activation) : Option Plan → List Frame
  | some (step :: _) => a.stepFrames step
  | some [] | none => []

end Activation

namespace PlanState

def begun : Option Plan → PlanState
  | some (_ :: rest) => ⟨some rest, true, true⟩
  | some [] => ⟨some [], true, false⟩
  | none => ⟨none, true, false⟩

private theorem take?_eq (state : PlanState) :
    state.take? = match state.plan.getD [] with
      | [] => none
      | step :: rest => some (step, { state with plan := some rest, awaitingStep := true }) := by
  obtain ⟨plan, _, _⟩ := state
  match plan with
  | none | some [] | some (_ :: _) => rfl

end PlanState

/-! ### Turns -/

inductive Activation.PlanTurn (now : Activation) (state : PlanState) :
    Activation × PlanState × Outcome → List Occurrence → Prop where
  | stops {left : Activation} {outcome : Outcome} {asked seen : List Occurrence}
      (cause : (now.result.isRunning = false ∧ asked = []) ∨
        asked = [.exchange .stopSignal true])
      (leaves : now.Leaves outcome seen) :
      PlanTurn now state (left, state, outcome) (asked ++ seen)
  | steps {step : PlanStep} {later : PlanState} {seen : List Occurrence}
      (running : now.result.isRunning = true) (next : state.take? = some (step, later))
      (upkeep : ∀ o ∈ seen, o.Upkeep) :
      PlanTurn now state (now, later, .yield (now.stepFrames step))
        (.exchange .stopSignal false :: seen)
  | exits {left : Activation} {later : PlanState} {outcome : Outcome}
      {judged seen : List Occurrence}
      (running : now.result.isRunning = true) (nothing : state.take? = none)
      (planned : state.plannedBefore = true) (judges : now.Judges true judged)
      (leaves : now.Leaves outcome seen) :
      PlanTurn now state (left, later, outcome) (.exchange .stopSignal false :: (judged ++ seen))
  | replans {plan : Option Plan} {judged seen more : List Occurrence}
      (running : now.result.isRunning = true) (nothing : state.take? = none)
      (planned : state.plannedBefore = true) (judges : now.Judges false judged)
      (upkeep : ∀ o ∈ seen, o.Upkeep) (upkeepAfter : ∀ o ∈ more, o.Upkeep) :
      PlanTurn now state
        ({ now with passPerformed := false }, .begun plan, .yield (now.planFrames plan))
        (.exchange .stopSignal false :: (judged ++ seen ++
          .exchange (.plan now.module now.substitution) (.ok plan) :: more))
  | begins {plan : Option Plan} {more : List Occurrence}
      (running : now.result.isRunning = true) (nothing : state.take? = none)
      (unplanned : state.plannedBefore = false) (upkeep : ∀ o ∈ more, o.Upkeep) :
      PlanTurn now state
        (now, .begun plan, .yield (now.planFrames plan))
        (.exchange .stopSignal false ::
          .exchange (.plan now.module now.substitution) (.ok plan) :: more)
  | fails {left : Activation} {later : PlanState} {failure : Failure} {seen : List Occurrence} :
      PlanTurn now state (left, later, .failed failure) seen

namespace Setting

variable (S : Setting σ ω)

private theorem runStep_upkeep (a : Activation) (step : PlanStep) :
    (S.traced.runStep a step).Logs fun outcome seen =>
      outcome = .yield (a.stepFrames step) ∧ ∀ o ∈ seen, o.Upkeep := by
  unfold runStep
  refine Exec.Logs.bind (S.emit_upkeep _ _ _ _ _) fun _ seen upkeep => ?_
  refine Exec.logs_pure ⟨rfl, ?_⟩
  rw [List.append_nil]
  exact upkeep

private theorem replan_turns (now : Activation) {state : PlanState}
    (planned : state.plannedBefore = true) (settled : state.awaitingStep = false) :
    (S.traced.replan now state).Logs fun left seen =>
      (∃ failure, left.2.2 = .failed failure) ∨
      ∃ plan more, seen = .exchange (.plan now.module now.substitution) (.ok plan) :: more ∧
        (∀ o ∈ more, o.Upkeep) ∧ left = (now, .begun plan, .yield (now.planFrames plan)) := by
  obtain ⟨_, plannedBefore, awaitingStep⟩ := state
  change plannedBefore = true at planned
  change awaitingStep = false at settled
  subst planned settled
  unfold replan
  refine S.ask_bind fun answer => ?_
  cases answer with
  | error fault => exact Exec.logs_pure (.inl ⟨_, rfl⟩)
  | ok plan =>
      refine Exec.Logs.bind (S.emit_upkeep _ _ _ _ _) fun _ told upkeep => ?_
      match plan with
      | none =>
          refine Exec.logs_pure (.inr ⟨none, told, ?_, upkeep, rfl⟩)
          rw [List.append_nil]
      | some [] =>
          refine Exec.logs_pure (.inr ⟨some [], told, ?_, upkeep, rfl⟩)
          rw [List.append_nil]
      | some (step :: rest) =>
          refine (S.runStep_upkeep now step).bind fun outcome more ran => ?_
          obtain ⟨rfl, also⟩ := ran
          refine Exec.logs_pure (.inr ⟨some (step :: rest), told ++ more, ?_, ?_, rfl⟩)
          · rw [List.append_nil]
          · intro o member
            rcases List.mem_append.mp member with first | second
            · exact upkeep o first
            · exact also o second

theorem resumePlans_turns (a : Activation) (state : PlanState) (previous : Option RunResult) :
    (S.traced.resumePlans a state previous).Logs
      ((state.absorb a previous).1.PlanTurn (state.absorb a previous).2) := by
  have settled := (PlanState.absorb_keeps state a previous).2
  unfold resumePlans
  generalize state.absorb a previous = heard at settled ⊢
  obtain ⟨now, state⟩ := heard
  have dropped : (⟨none, true, state.awaitingStep⟩ : PlanState).awaitingStep = false := settled
  refine (S.mustStop_logs now).bind fun stop asked polled => ?_
  cases stop with
  | true =>
      refine (S.finish_leaves now).bind fun left seen leaves => ?_
      refine Exec.logs_pure ?_
      rw [List.append_nil]
      refine .stops ?_ leaves
      rcases polled with ⟨stops, _, noted⟩ | ⟨_, noted⟩
      · exact .inl ⟨stops, noted⟩
      · exact .inr noted
  | false =>
      obtain ⟨running, rfl⟩ : now.result.isRunning = true ∧
          asked = [.exchange .stopSignal false] := by
        rcases polled with ⟨_, impossible, _⟩ | polled
        · cases impossible
        · exact polled
      cases next : state.take? with
      | some taken =>
          obtain ⟨step, later⟩ := taken
          refine (S.runStep_upkeep now step).bind fun outcome seen ran => ?_
          obtain ⟨rfl, upkeep⟩ := ran
          refine Exec.logs_pure ?_
          rw [List.append_nil]
          exact .steps running next upkeep
      | none =>
          cases planned : state.plannedBefore with
          | true =>
              refine (S.exitHolds_logs now).bind fun holds judged judges => ?_
              cases holds with
              | true =>
                  refine (S.finish_leaves now).bind fun left seen leaves => ?_
                  refine Exec.logs_pure ?_
                  rw [List.append_nil, List.singleton_append]
                  exact .exits running next planned judges leaves
              | false =>
                  refine (S.nextPass_upkeep now).bind fun later seen passed => ?_
                  obtain ⟨rfl, upkeep⟩ := passed
                  refine (S.replan_turns _ rfl dropped).mono fun left more replanned => ?_
                  obtain ⟨leftNow, leftState, outcome⟩ := left
                  rcases replanned with ⟨failure, failed⟩ | ⟨plan, after, rfl, upkeepAfter, same⟩
                  · change outcome = _ at failed
                    subst failed
                    exact .fails
                  · cases same
                    rw [List.singleton_append, ← List.append_assoc]
                    exact .replans running next planned judges upkeep upkeepAfter
          | false =>
              refine (S.replan_turns now rfl dropped).mono fun left more replanned => ?_
              obtain ⟨leftNow, leftState, outcome⟩ := left
              rcases replanned with ⟨failure, failed⟩ | ⟨plan, after, rfl, upkeepAfter, same⟩
              · change outcome = _ at failed
                subst failed
                exact .fails
              · cases same
                exact .begins running next planned upkeepAfter

end Setting

/-! ### The ledger -/

/-- A plan that the module has been given, with the results of the steps that it has run. -/
structure PlanRecord where
  plan : Option Plan
  results : List RunResult := []

namespace PlanRecord

variable {record : PlanRecord}

def steps (record : PlanRecord) : Plan := record.plan.getD []

def executed (record : PlanRecord) : Plan := record.steps.take record.results.length

def acted (record : PlanRecord) : Bool := record.results.any (·.performedAction)

/-- Whether the plan is used up, or dropped because its last step did nothing. -/
def ended (record : PlanRecord) : Bool :=
  record.results.length == record.steps.length || record.results.getLast?.any (!·.performedAction)

def remaining (record : PlanRecord) : Plan :=
  if record.ended then [] else record.steps.drop record.results.length

def hear (record : PlanRecord) (r : RunResult) : PlanRecord :=
  { record with results := record.results ++ [r] }

/-- No more steps have been run than the plan has, and none once it was over. -/
structure Orderly (record : PlanRecord) : Prop where
  bounded : record.results.length ≤ record.steps.length
  goesOn : ∀ part, part <+: record.results → part ≠ record.results →
    ended ⟨record.plan, part⟩ = false

@[simp]
theorem steps_hear (r : RunResult) : (record.hear r).steps = record.steps := rfl

@[simp]
theorem length_hear (r : RunResult) :
    (record.hear r).results.length = record.results.length + 1 := by
  simp [hear]

private theorem ended_hear (r : RunResult) : (record.hear r).ended =
    (record.results.length + 1 == record.steps.length || !r.performedAction) := by
  simp [ended, hear, steps]

private theorem acted_hear (r : RunResult) :
    (record.hear r).acted = (record.acted || r.performedAction) := by
  simp [acted, hear]

theorem executed_hear {step : PlanStep} (next : record.steps[record.results.length]? = some step)
    (r : RunResult) : (record.hear r).executed = record.executed ++ [step] := by
  unfold executed
  rw [steps_hear, length_hear, List.take_add_one, next]
  rfl

theorem Orderly.fresh (plan : Option Plan) : Orderly ⟨plan, []⟩ := by
  constructor
  · exact Nat.zero_le _
  · intro part begins proper
    exact absurd (List.prefix_nil.mp begins) proper

theorem Orderly.hear (orderly : record.Orderly) (goesOn : record.ended = false) (r : RunResult) :
    (record.hear r).Orderly := by
  constructor
  · have unused : record.results.length ≠ record.steps.length := by
      intro used
      simp [ended, used] at goesOn
    have bounded := orderly.bounded
    rw [length_hear, steps_hear]
    omega
  · intro part begins proper
    rcases List.prefix_concat_iff.mp begins with whole | within
    · exact absurd whole proper
    · by_cases all : part = record.results
      · rw [all]
        exact goesOn
      · exact orderly.goesOn part within all

private theorem ended_of_remaining (bounded : record.results.length ≤ record.steps.length)
    (nothing : record.remaining = []) : record.ended = true := by
  cases status : record.ended with
  | true => rfl
  | false =>
      simp only [remaining, status, Bool.false_eq_true, if_false, List.drop_eq_nil_iff] at nothing
      have used : record.results.length = record.steps.length := by omega
      simp [ended, used] at status

private theorem next_of_remaining {step : PlanStep} {rest : Plan}
    (next : record.remaining = step :: rest) :
    record.ended = false ∧ record.steps.drop record.results.length = step :: rest := by
  cases ended : record.ended with
  | true => simp [remaining, ended] at next
  | false => exact ⟨rfl, by simpa [remaining, ended] using next⟩

end PlanRecord

/-- The plans that a module has been done with, and the one that it follows. -/
structure PlanLedger where
  closed : List PlanRecord := []
  current : Option PlanRecord := none

namespace PlanLedger

def close (l : PlanLedger) : PlanLedger := { closed := l.closed ++ l.current.toList }

def begin (l : PlanLedger) (plan : Option Plan) : PlanLedger := { l with current := some { plan } }

def hear (l : PlanLedger) : Option RunResult → PlanLedger
  | none => l
  | some r => { l with current := l.current.map (·.hear r) }

def acted (l : PlanLedger) : Bool := l.current.any (·.acted)

def remaining (l : PlanLedger) : Plan := (l.current.map (·.remaining)).getD []

def records (l : PlanLedger) : List PlanRecord := l.closed ++ l.current.toList

end PlanLedger

/-! ### Moves -/

/-- What a module does in a turn, with its ledger before the turn and after it. It `stop`s if it
is told to; else it runs the next step of its plan. Once the plan is over it leaves if its exit
condition holds, and asks for one new plan if not. It asks for its first plan at once. -/
inductive Activation.PlanMove (a : Activation) (stop : Bool) (answers : List Bool)
    (plans : List (Except PlannerFault (Option Plan))) (l : PlanLedger) :
    Outcome → PlanLedger → Prop where
  | stops {r : RunResult} (stopped : stop = true) (unasked : answers = [])
      (unplanned : plans = []) : PlanMove a stop answers plans l (.done r) l
  | steps {record : PlanRecord} {step : PlanStep} (free : stop = false)
      (current : l.current = some record) (goesOn : record.ended = false)
      (next : record.steps[record.results.length]? = some step) (unasked : answers = [])
      (unplanned : plans = []) : PlanMove a stop answers plans l (.yield (a.stepFrames step)) l
  | exits {record : PlanRecord} {r : RunResult} (free : stop = false)
      (current : l.current = some record) (ended : record.ended = true)
      (holds : a.Judged record.acted true answers) (unplanned : plans = []) :
      PlanMove a stop answers plans l (.done r) l.close
  | replans {record : PlanRecord} {plan : Option Plan} (free : stop = false)
      (current : l.current = some record) (ended : record.ended = true)
      (goesOn : a.Judged record.acted false answers) (planned : plans = [.ok plan]) :
      PlanMove a stop answers plans l (.yield (a.planFrames plan)) (l.close.begin plan)
  | begins {plan : Option Plan} (free : stop = false) (first : l.current = none)
      (unasked : answers = []) (planned : plans = [.ok plan]) :
      PlanMove a stop answers plans l (.yield (a.planFrames plan)) (l.begin plan)

namespace Activation

variable {a now left : Activation} {l : PlanLedger} {state later : PlanState}

/-- The ledger tells the state of a module that has `heard` what it waited for: its mark of the
pass, and the steps that it has still to run. -/
structure TracksPlans (a : Activation) (l : PlanLedger) (heard : Activation × PlanState) :
    Prop where
  same : ∃ result, heard.1 = { a with result, passPerformed := l.acted }
  planned : heard.2.plannedBefore = l.current.isSome
  remaining : heard.2.plan.getD [] = l.remaining
  bounded : ∀ record, l.current = some record → record.results.length ≤ record.steps.length

structure ContinuesPlans (a : Activation) (l : PlanLedger) (left : Activation) (later : PlanState)
    (children : List Frame) : Prop where
  prepared : left.prepared = a.prepared
  tracks : ∀ previous : Option RunResult, (previous = none ↔ children = []) →
    a.TracksPlans (l.hear previous) (later.absorb left previous)

theorem TracksPlans.next {step : PlanStep} (tracks : a.TracksPlans l (now, state))
    (next : state.take? = some (step, later)) :
    ∃ record rest, l.current = some record ∧ record.ended = false ∧
      record.steps.drop record.results.length = step :: rest ∧ later = ⟨some rest, true, true⟩ := by
  have planned := tracks.planned
  have remaining := tracks.remaining
  rw [PlanState.take?_eq] at next
  cases left : state.plan.getD [] with
  | nil => simp [left] at next
  | cons first rest =>
      simp only [left, Option.some.injEq, Prod.mk.injEq] at next
      obtain ⟨rfl, rfl⟩ := next
      cases current : l.current with
      | none => simp [left, PlanLedger.remaining, current] at remaining
      | some record =>
          simp only [left, PlanLedger.remaining, current, Option.map_some, Option.getD_some]
            at remaining
          obtain ⟨goesOn, shape⟩ := record.next_of_remaining remaining.symm
          simp only [current, Option.isSome_some] at planned
          exact ⟨record, rest, rfl, goesOn, shape, by rw [planned]⟩

theorem TracksPlans.ended (tracks : a.TracksPlans l (now, state)) (nothing : state.take? = none)
    (planned : state.plannedBefore = true) :
    ∃ record, l.current = some record ∧ record.ended = true := by
  have remaining := tracks.remaining
  rw [PlanState.take?_eq] at nothing
  cases left : state.plan.getD [] with
  | cons first rest => simp [left] at nothing
  | nil =>
      cases current : l.current with
      | none =>
          have told := tracks.planned
          simp [planned, current] at told
      | some record =>
          simp only [left, PlanLedger.remaining, current, Option.map_some, Option.getD_some]
            at remaining
          exact ⟨record, rfl, record.ended_of_remaining (tracks.bounded record current)
            remaining.symm⟩

/-- A module that runs the next step of its plan. -/
theorem ContinuesPlans.step {record : PlanRecord} {step : PlanStep} {rest : Plan}
    {result : RunResult} (current : l.current = some record)
    (next : record.steps.drop record.results.length = step :: rest) :
    a.ContinuesPlans l { a with result, passPerformed := l.acted } ⟨some rest, true, true⟩
      (a.stepFrames step) := by
  have inside : record.results.length < record.steps.length := by
    have count := congrArg List.length next
    simp only [List.length_drop, List.length_cons] at count
    omega
  have others : record.steps.drop (record.results.length + 1) = rest := by
    rw [← List.drop_drop, next]
    rfl
  constructor
  · rfl
  · intro previous heard
    cases previous with
    | none => cases heard.mp rfl
    | some r =>
        have acted : (l.hear (some r)).acted = (l.acted || r.performedAction) := by
          simp [PlanLedger.acted, PlanLedger.hear, current, PlanRecord.acted_hear]
        have hears : (l.hear (some r)).current = some (record.hear r) := by
          simp [PlanLedger.hear, current]
        constructor
        · exact ⟨result.merge r, by rw [acted]; rfl⟩
        · rw [hears]
          rfl
        · rw [PlanLedger.remaining, hears]
          have shape : (record.hear r).remaining = if r.performedAction then rest else [] := by
            unfold PlanRecord.remaining
            rw [PlanRecord.ended_hear, PlanRecord.steps_hear, PlanRecord.length_hear, others]
            cases r.performedAction with
            | false => simp
            | true =>
                by_cases last : record.results.length + 1 = record.steps.length
                · rw [last, List.drop_length] at others
                  simp [last, ← others]
                · simp [last]
          simp only [Option.map_some, Option.getD_some, shape, PlanState.absorb]
          cases r.performedAction <;> rfl
        · intro other same
          rw [hears] at same
          cases same
          rw [PlanRecord.length_hear, PlanRecord.steps_hear]
          exact inside

/-- A module that has been given a plan. -/
theorem ContinuesPlans.begin {plan : Option Plan} {result : RunResult} :
    a.ContinuesPlans (l.begin plan) { a with result, passPerformed := false } (.begun plan)
      (a.planFrames plan) := by
  match plan with
  | some (step :: rest) =>
      exact ContinuesPlans.step (l := l.begin (some (step :: rest))) rfl rfl
  | some [] | none =>
      constructor
      · rfl
      · intro previous heard
        rw [heard.mpr rfl]
        constructor
        · exact ⟨_, rfl⟩
        · rfl
        · rfl
        · intro record same
          cases same
          exact Nat.le_refl 0

variable {outcome : Outcome} {seen : List Occurrence}

/-- One turn of the module is one move by the ledger, and the ledger goes on telling its state. -/
theorem PlanTurn.moves (turn : now.PlanTurn state (left, later, outcome) seen)
    (tracks : a.TracksPlans l (now, state)) (clean : ∀ failure, outcome ≠ .failed failure) :
    ∃ after, a.PlanMove (!now.result.isRunning || (polls seen).head? == some true)
        (goalAnswers seen) (planAnswers seen) l outcome after ∧
      ∀ children, outcome = .yield children → a.ContinuesPlans after left later children := by
  obtain ⟨result, same⟩ := tracks.same
  change now = _ at same
  subst same
  have free (running : result.isRunning = true) (rest : List Occurrence) :
      (!result.isRunning || (polls (.exchange .stopSignal false :: rest)).head? == some true) =
        false := by
    simp [running]
  have answers {holds : Bool} {judged rest : List Occurrence} {record : PlanRecord}
      (current : l.current = some record)
      (judges : ({ a with result, passPerformed := l.acted } : Activation).Judges holds judged)
      (unasked : goalAnswers rest = []) : a.Judged record.acted holds
        (goalAnswers (.exchange .stopSignal false :: (judged ++ rest))) := by
    have acted : record.acted = l.acted := by simp [PlanLedger.acted, current]
    rw [acted, goalAnswers_stopSignal, goalAnswers_append, unasked, List.append_nil]
    exact judges.judged
  cases turn with
  | stops cause leaves =>
      obtain ⟨r, rfl⟩ := leaves.departs.done clean
      refine ⟨l, .stops ?_ ?_ ?_, fun children impossible => by cases impossible⟩
      · rcases cause with ⟨stops, rfl⟩ | rfl
        · simp [stops]
        · simp
      · rcases cause with ⟨_, rfl⟩ | rfl
        · exact leaves.departs.unasked
        · simpa using leaves.departs.unasked
      · rcases cause with ⟨_, rfl⟩ | rfl
        · exact leaves.unplanned
        · simpa using leaves.unplanned
  | steps running next upkeep =>
      obtain ⟨record, rest, current, goesOn, shape, rfl⟩ := tracks.next next
      refine ⟨l, .steps (free running _) current goesOn ?_ ?_ ?_, ?_⟩
      · have first := congrArg List.head? shape
        rw [List.head?_drop] at first
        exact first
      · simp [goalAnswers_of_upkeep upkeep]
      · simp [planAnswers_of_upkeep upkeep]
      · intro children same
        cases same
        exact .step current shape
  | exits running nothing planned judges leaves =>
      obtain ⟨r, rfl⟩ := leaves.departs.done clean
      obtain ⟨record, current, ended⟩ := tracks.ended nothing planned
      refine ⟨l.close, .exits (free running _) current ended
        (answers current judges leaves.departs.unasked) ?_,
        fun children impossible => by cases impossible⟩
      · simp [judges.unplanned, leaves.unplanned]
  | replans running nothing planned judges upkeep upkeepAfter =>
      obtain ⟨record, current, ended⟩ := tracks.ended nothing planned
      refine ⟨_, .replans (free running _) current ended ?_ ?_, ?_⟩
      · rw [List.append_assoc]
        apply answers current judges
        simp [goalAnswers_of_upkeep upkeep, goalAnswers_of_upkeep upkeepAfter]
      · simp [judges.unplanned, planAnswers_of_upkeep upkeep, planAnswers_of_upkeep upkeepAfter]
      · intro children same
        cases same
        exact .begin
  | begins running nothing unplanned upkeep =>
      have first : l.current = none := by
        have told := tracks.planned
        simpa [unplanned] using told
      refine ⟨_, .begins (free running _) first ?_ ?_, ?_⟩
      · simp [goalAnswers_of_upkeep upkeep]
      · simp [planAnswers_of_upkeep upkeep]
      · intro children same
        cases same
        have idle : l.acted = false := by simp [PlanLedger.acted, first]
        rw [idle]
        exact .begin
  | fails => exact absurd rfl (clean _)

end Activation

end CognitiveAgent
