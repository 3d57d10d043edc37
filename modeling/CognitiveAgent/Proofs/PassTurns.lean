import CognitiveAgent.Proofs.Occurrences
import CognitiveAgent.Proofs.Waiting

/-!
What occurs when a module is entered, when it asks whether to stop, when it judges its exit
condition and when it leaves; and from these, case by case, what a module that tries its rules in
order does in one resumption.
-/

set_option autoImplicit false

namespace CognitiveAgent

variable {σ ω : Type}

namespace Occurrence

structure Silent (o : Occurrence) : Prop where
  poll : o.poll? = none
  perform : o.isPerform = false

structure Calm (o : Occurrence) : Prop extends Silent o where
  evaluation : o.isEvaluation = false

structure Quiet (o : Occurrence) : Prop extends Calm o where
  goals : o.goals? = none

structure Idle (o : Occurrence) : Prop where
  perform : o.isPerform = false
  evaluation : o.isEvaluation = false

theorem Calm.idle {o : Occurrence} (calm : o.Calm) : o.Idle := ⟨calm.perform, calm.evaluation⟩

/-- A report, or what is asked of the mental state to ready it for a module and to clear it
again. -/
inductive Upkeep : Occurrence → Prop where
  | event (e : Event) : Upkeep (.event e)
  | insert (belief : Term) (answer : Except MentalFault Update) :
      Upkeep (.exchange (.insert belief) answer)
  | adopt (goal : Term) (answer : Except MentalFault Update) :
      Upkeep (.exchange (.adopt goal) answer)
  | enterFocus (module : String) (method : FocusMethod) (goal : Option Term)
      (answer : Except MentalFault Unit) :
      Upkeep (.exchange (.enterFocus module method goal) answer)
  | exitFocus (module : String) (answer : Except MentalFault Unit) :
      Upkeep (.exchange (.exitFocus module) answer)

theorem Upkeep.quiet {o : Occurrence} (upkeep : o.Upkeep) : o.Quiet := by
  cases upkeep <;> exact ⟨⟨⟨rfl, rfl⟩, rfl⟩, rfl⟩

end Occurrence

theorem polls_of_silent {seen : List Occurrence} (silent : ∀ o ∈ seen, o.Silent) :
    polls seen = [] :=
  polls_eq_nil fun o member => (silent o member).poll

theorem goalAnswers_of_quiet {seen : List Occurrence} (quiet : ∀ o ∈ seen, o.Quiet) :
    goalAnswers seen = [] :=
  goalAnswers_eq_nil fun o member => (quiet o member).goals

/-- The result of a module that leaves, told last whether the agent is to stop. -/
def RunResult.leaving (r : RunResult) (stopped anonymous : Bool) : RunResult :=
  let told := if stopped then r.merge (.stopped .hardStop) else r
  if anonymous then told else told.merge (.stopped .softStop)

theorem RunResult.leaving_status (r : RunResult) (stopped anonymous : Bool) :
    (r.leaving stopped anonymous).status =
      if stopped then .hardStop else if anonymous then r.status else r.status.max .softStop := by
  obtain ⟨status, _, _⟩ := r
  cases stopped <;> cases anonymous <;> cases status <;> rfl

/-- The occurrences of a departure, and what comes of it. -/
def Activation.Departs (a : Activation) (outcome : Outcome) (seen : List Occurrence) : Prop :=
  ∃ stopped rest, seen = .exchange .stopSignal stopped :: rest ∧ (∀ o ∈ rest, o.Quiet) ∧
    ((∃ failure, outcome = .failed failure) ∨
      outcome = .done (a.result.leaving stopped a.module.anonymous))

def Activation.Leaves (a : Activation) (outcome : Outcome) (seen : List Occurrence) : Prop :=
  ∃ stopped rest, seen = .exchange .stopSignal stopped :: rest ∧ (∀ o ∈ rest, o.Upkeep) ∧
    ((∃ failure, outcome = .failed failure) ∨
      outcome = .done (a.result.leaving stopped a.module.anonymous))

theorem Activation.Leaves.departs {a : Activation} {outcome : Outcome} {seen : List Occurrence}
    (leaves : a.Leaves outcome seen) : a.Departs outcome seen := by
  obtain ⟨stopped, rest, noted, upkeep, ends⟩ := leaves
  exact ⟨stopped, rest, noted, fun o member => (upkeep o member).quiet, ends⟩

def Activation.Judges (a : Activation) (holds : Bool) (seen : List Occurrence) : Prop :=
  match a.module.exit with
  | .noGoals => seen = [.exchange .hasGoals (!holds)]
  | .noAction => holds = !a.passPerformed ∧ seen = []
  | .always => holds = true ∧ seen = []
  | .never => holds = false ∧ seen = []

/-- At most it is asked whether there are goals. -/
theorem Activation.Judges.asks {a : Activation} {holds : Bool} {seen : List Occurrence}
    (judges : a.Judges holds seen) : seen = [] ∨ seen = [.exchange .hasGoals (!holds)] := by
  unfold Judges at judges
  cases exit : a.module.exit with
  | noGoals => rw [exit] at judges; exact .inr judges
  | noAction => rw [exit] at judges; exact .inl judges.2
  | always => rw [exit] at judges; exact .inl judges.2
  | never => rw [exit] at judges; exact .inl judges.2

theorem Activation.Judges.calm {a : Activation} {holds : Bool} {seen : List Occurrence}
    (judges : a.Judges holds seen) : ∀ o ∈ seen, o.Calm := by
  intro o member
  rcases judges.asks with rfl | rfl
  · cases member
  · rw [List.mem_singleton.mp member]
    exact ⟨⟨rfl, rfl⟩, rfl⟩

/-- The rules with their positions, in an order that a pass may try them in. -/
def Activation.Arranges (a : Activation) (queue : List (Rule × Nat)) : Prop :=
  queue.Perm a.module.rules.zipIdx ∧
    (a.order.shufflesRules = false → queue = a.module.rules.zipIdx)

private theorem Activation.Arranges.eq_nil_iff {a : Activation} {queue : List (Rule × Nat)}
    (arranges : a.Arranges queue) : queue = [] ↔ a.module.rules = [] := by
  rw [← List.length_eq_zero_iff, arranges.1.length_eq, List.length_zipIdx,
    List.length_eq_zero_iff]

theorem Random.shuffle_perm {α : Type} (r : Random) (items : List α) :
    ((r.shuffle items).1).Perm items := by
  have swapped (items : Array α) (i j : Nat) : (items.swapIfInBounds i j).Perm items := by
    unfold Array.swapIfInBounds
    split
    · split
      · exact Array.swap_perm _ _
      · exact .refl _
    · exact .refl _
  have exchanged (last : Nat) (items : Array α) (r : Random) :
      ((shuffleFrom last items r).1).Perm items := by
    induction last generalizing items r with
    | zero => exact .refl _
    | succ last ih => exact (ih _ _).trans (swapped _ _ _)
  have all := exchanged (items.length - 1) items.toArray r
  exact Array.perm_iff_toList_perm.mp all

namespace Setting

variable (S : Setting σ ω)

theorem emit_upkeep (channel : Channel) (subject : String) (source : Option Location)
    (template : String) (arguments : List String) :
    (S.traced.emit channel subject source template arguments).Only Occurrence.Upkeep :=
  S.note_only (.event _)

theorem emit_quiet (channel : Channel) (subject : String) (source : Option Location)
    (template : String) (arguments : List String) :
    (S.traced.emit channel subject source template arguments).Only Occurrence.Quiet :=
  (S.emit_upkeep _ _ _ _ _).mono fun _ upkeep => upkeep.quiet

private theorem insertAll_upkeep (beliefs : List Term) :
    (S.traced.insertAll beliefs).Only Occurrence.Upkeep := by
  induction beliefs with
  | nil => exact Exec.only_pure _
  | cons belief rest ih =>
      refine (S.ask_only fun answer => .insert belief answer).bind fun answer => ?_
      cases answer with
      | error fault => exact Exec.only_pure _
      | ok update => exact ih

private theorem adoptAll_upkeep (goals : List Term) :
    (S.traced.adoptAll goals).Only Occurrence.Upkeep := by
  induction goals with
  | nil => exact Exec.only_pure _
  | cons goal rest ih =>
      refine (S.ask_only fun answer => .adopt goal answer).bind fun answer => ?_
      cases answer with
      | error fault => exact Exec.only_pure _
      | ok update => exact ih

private theorem exitFocus_upkeep (m : Module) : (S.traced.exitFocus m).Only Occurrence.Upkeep := by
  unfold exitFocus
  split
  · exact Exec.only_pure _
  · exact S.ask_only fun answer => .exitFocus _ answer

theorem furnish_upkeep (a : Activation) : (S.traced.furnish a).Only Occurrence.Upkeep := by
  have entering (m : Module) (goal : Option Term) :
      (S.traced.enterFocus m goal).Only Occurrence.Upkeep := by
    unfold enterFocus
    split
    · exact Exec.only_pure _
    · exact S.ask_only fun answer => .enterFocus _ _ _ answer
  refine (entering _ _).bind fun entered => ?_
  cases entered with
  | error fault => exact Exec.only_pure _
  | ok _ =>
      refine (S.insertAll_upkeep _).bind fun inserted => ?_
      cases inserted with
      | error fault => exact Exec.only_pure _
      | ok _ => exact S.adoptAll_upkeep _

theorem prepare_upkeep (a : Activation) : (S.traced.prepare a).Only Occurrence.Upkeep := by
  refine (S.furnish_upkeep _).bind fun furnished => ?_
  cases furnished with
  | error fault => exact Exec.only_pure _
  | ok _ =>
      refine (enter_only _ _).bind fun _ => ?_
      exact (S.emit_upkeep _ _ _ _ _).bind fun _ => Exec.only_pure _

theorem prepare_quiet (a : Activation) : (S.traced.prepare a).Only Occurrence.Quiet :=
  (S.prepare_upkeep a).mono fun _ upkeep => upkeep.quiet

theorem mustStop_logs (a : Activation) :
    (S.traced.mustStop a).Logs fun stop seen =>
      (a.result.isRunning = false ∧ stop = true ∧ seen = []) ∨
      (a.result.isRunning = true ∧ seen = [.exchange .stopSignal stop]) := by
  unfold mustStop
  split
  · rename_i running
    exact S.ask_logs fun answer => .inr ⟨running, rfl⟩
  · rename_i stops
    exact Exec.logs_pure (.inl ⟨Bool.eq_false_iff.mpr stops, rfl, rfl⟩)

theorem exitHolds_logs (a : Activation) : (S.traced.exitHolds a).Logs a.Judges := by
  unfold exitHolds Activation.Judges
  cases a.module.exit with
  | noGoals =>
      refine S.ask_bind fun answer => Exec.logs_pure ?_
      rw [Bool.not_not]
  | noAction => exact Exec.logs_pure ⟨rfl, rfl⟩
  | always => exact Exec.logs_pure ⟨rfl, rfl⟩
  | never => exact Exec.logs_pure ⟨rfl, rfl⟩

theorem nextPass_upkeep (a : Activation) :
    (S.traced.nextPass a).Logs fun later seen =>
      later = { a with passPerformed := false } ∧ ∀ o ∈ seen, o.Upkeep := by
  unfold nextPass
  split
  · refine Exec.Logs.bind (S.emit_upkeep _ _ _ _ _) fun _ seen upkeep => ?_
    refine Exec.logs_pure ⟨rfl, ?_⟩
    rw [List.append_nil]
    exact upkeep
  · exact Exec.logs_pure ⟨rfl, fun o member => absurd member List.not_mem_nil⟩

theorem nextPass_logs (a : Activation) :
    (S.traced.nextPass a).Logs fun later seen =>
      later = { a with passPerformed := false } ∧ ∀ o ∈ seen, o.Quiet :=
  (S.nextPass_upkeep a).mono fun _ _ ⟨same, upkeep⟩ =>
    ⟨same, fun o member => (upkeep o member).quiet⟩

theorem finish_leaves (a : Activation) :
    (S.traced.finish a).Logs fun left seen => a.Leaves left.2 seen := by
  unfold finish
  refine S.ask_bind fun stopped => ?_
  dsimp only
  generalize told : (if stopped = true then
    { a with result := a.result.merge (.stopped .hardStop) } else a) = now
  have same : now.module = a.module := by
    subst now
    split <;> rfl
  have result : now.result =
      if stopped = true then a.result.merge (.stopped .hardStop) else a.result := by
    subst now
    split <;> rfl
  refine Exec.Logs.bind (S.exitFocus_upkeep _) fun answer seen upkeep => ?_
  cases answer with
  | error fault =>
      refine Exec.logs_pure ⟨stopped, seen, ?_, upkeep, .inl ⟨_, rfl⟩⟩
      rw [List.append_nil]
  | ok _ =>
      refine Exec.Logs.bind (leave_only _ Occurrence.Upkeep) fun _ left upkeep' => ?_
      refine Exec.Logs.bind (S.emit_upkeep _ _ _ _ _) fun _ more upkeep'' => ?_
      refine Exec.logs_pure ⟨stopped, seen ++ (left ++ more), ?_, ?_, .inr ?_⟩
      · rw [List.append_nil]
      · intro o member
        rcases List.mem_append.mp member with first | rest
        · exact upkeep o first
        · rcases List.mem_append.mp rest with second | third
          · exact upkeep' o second
          · exact upkeep'' o third
      · rw [same]
        unfold RunResult.leaving
        cases a.module.anonymous with
        | true => exact congrArg Outcome.done result
        | false => exact congrArg (fun r => Outcome.done (r.merge (.stopped .softStop))) result

theorem finish_logs (a : Activation) :
    (S.traced.finish a).Logs fun left seen => a.Departs left.2 seen :=
  (S.finish_leaves a).mono fun _ _ leaves => leaves.departs

def entered (a : Activation) : Activation :=
  { a with order := (a.module.order <|> a.inherited).getD S.defaultOrder, prepared := true }

def present (g : ModuleFrame) : Activation :=
  if g.activation.prepared then g.activation else S.entered g.activation

theorem prepare_enters (a : Activation) :
    (S.prepare a).Returns fun left =>
      left = (S.entered a, none) ∨ ∃ failure, left.2 = some failure := by
  unfold prepare
  refine (Exec.returns_any _).bind fun answer _ => ?_
  cases answer with
  | error fault => exact Exec.returns_pure (.inr ⟨_, rfl⟩)
  | ok _ =>
      refine (Exec.returns_any _).bind fun _ _ => ?_
      refine (Exec.returns_any _).bind fun _ _ => ?_
      exact Exec.returns_pure (.inl rfl)

/-- A module that is resumed pursues its strategy, after its preparation where it has not been
entered yet. -/
theorem resumeModule_pursues {g : ModuleFrame} {previous : Option RunResult}
    {holds : Activation → ModuleFrame × Outcome → List Occurrence → Prop}
    (pursued : ∀ a, a.prepared = true →
      (S.traced.pursue a g.strategy previous).Logs (holds a)) :
    (S.traced.resumeModule g previous).Logs fun left seen =>
      (g.activation.prepared = false ∧ (∃ failure, left.2 = .failed failure) ∧
        ∀ o ∈ seen, o.Upkeep) ∨
      ∃ entry rest, seen = entry ++ rest ∧ (∀ o ∈ entry, o.Upkeep) ∧
        holds (S.present g) left rest := by
  unfold resumeModule present
  split
  · rename_i prepared
    refine (pursued _ prepared).mono fun left seen turn => .inr ?_
    exact ⟨[], seen, rfl, fun o member => absurd member List.not_mem_nil, turn⟩
  · rename_i unprepared
    refine ((S.prepare_upkeep _).and_returns (S.traced.prepare_enters _)).bind
      fun prepared entry entered => ?_
    obtain ⟨upkeep, rfl | ⟨failure, failed⟩⟩ := entered
    · exact (pursued _ rfl).mono fun left seen turn => .inr ⟨entry, seen, rfl, upkeep, turn⟩
    · obtain ⟨now, outcome⟩ := prepared
      change outcome = some failure at failed
      subst failed
      refine Exec.logs_pure (.inl ⟨Bool.eq_false_iff.mpr unprepared, ⟨failure, rfl⟩, ?_⟩)
      rw [List.append_nil]
      exact upkeep

theorem openPass_logs (a : Activation) (state : PassState) :
    (openPass a state : Exec σ (List Occurrence) PassState).Logs fun opened seen =>
      seen = [] ∧ ((state.isOpen = true ∧ opened = state) ∨
        (state.isOpen = false ∧ ∃ queue, a.Arranges queue ∧
          opened = { state with queue, isOpen := true })) := by
  unfold openPass
  split
  · rename_i isOpen
    exact Exec.logs_pure ⟨rfl, .inl ⟨isOpen, rfl⟩⟩
  · rename_i isClosed
    have arranged : (passOrder a : Exec σ (List Occurrence) _).Logs fun queue seen =>
        seen = [] ∧ a.Arranges queue := by
      unfold passOrder
      split
      · rename_i shuffles
        refine (shuffle_logs _).mono fun shuffled seen noted => ?_
        obtain ⟨quiet, random, rfl⟩ := noted
        refine ⟨quiet, random.shuffle_perm _, ?_⟩
        intro plain
        rw [shuffles] at plain
        cases plain
      · exact Exec.logs_pure ⟨rfl, .refl _, fun _ => rfl⟩
    refine arranged.bind fun queue seen noted => ?_
    obtain ⟨rfl, arranges⟩ := noted
    exact Exec.logs_pure ⟨rfl, .inr ⟨Bool.eq_false_iff.mpr isClosed, queue, arranges, rfl⟩⟩

/-! ### Modules that try their rules in order -/

/-- The rules that a pass has still to try, whether it is open or yet to be opened. -/
def Queues (now : Activation) (state : PassState) (queue : List (Rule × Nat)) : Prop :=
  (state.isOpen = true ∧ state.queue = queue) ∨ (state.isOpen = false ∧ now.Arranges queue)

def ClosesPass (now : Activation) (state : PassState) (closes : Bool) : Prop :=
  closes = true ∨ (closes = false ∧ Queues now state [])

def EndsPass (now : Activation) (left : Activation × PassState × Option Outcome)
    (judged seen : List Occurrence) : Prop :=
  (now.Judges true judged ∧ ∃ outcome, left.2.2 = some outcome ∧ now.Departs outcome seen) ∨
  (now.Judges false judged ∧ (∀ o ∈ seen, o.Quiet) ∧
    left.1 = { now with passPerformed := false } ∧
    ((∃ frames, S.eventPass { now with passPerformed := false } = some frames ∧
        left.2 = ({ awaiting := .eventPass }, some (.yield frames))) ∨
      (S.eventPass { now with passPerformed := false } = none ∧ left.2 = ({}, none))))

inductive PassTurn (now : Activation) (state : PassState) (closes : Bool) :
    Activation × PassState × Outcome → List Occurrence → Prop where
  | stops {left : Activation} {outcome : Outcome} {asked seen : List Occurrence}
      (cause : (now.result.isRunning = false ∧ asked = []) ∨
        asked = [.exchange .stopSignal true])
      (departs : now.Departs outcome seen) :
      PassTurn now state closes (left, state, outcome) (asked ++ seen)
  | tries {rule : Rule} {index : Nat} {rest : List (Rule × Nat)}
      (running : now.result.isRunning = true) (goesOn : closes = false)
      (next : Queues now state ((rule, index) :: rest)) :
      PassTurn now state closes
        (now, ⟨rest, true, .rule⟩, .yield [now.ruleFrame rule index])
        [.exchange .stopSignal false]
  | exits {left : Activation} {later : PassState} {outcome : Outcome}
      {judged seen : List Occurrence}
      (running : now.result.isRunning = true) (ends : ClosesPass now state closes)
      (judges : now.Judges true judged) (departs : now.Departs outcome seen) :
      PassTurn now state closes (left, later, outcome)
        (.exchange .stopSignal false :: (judged ++ seen))
  | separates {frames : List Frame} {judged seen : List Occurrence}
      (running : now.result.isRunning = true) (ends : ClosesPass now state closes)
      (judges : now.Judges false judged) (quiet : ∀ o ∈ seen, o.Quiet)
      (events : S.eventPass { now with passPerformed := false } = some frames) :
      PassTurn now state closes
        ({ now with passPerformed := false }, { awaiting := .eventPass }, .yield frames)
        (.exchange .stopSignal false :: (judged ++ seen))
  | reopens {rule : Rule} {index : Nat} {rest : List (Rule × Nat)}
      {judged seen : List Occurrence}
      (running : now.result.isRunning = true) (ends : closes = true)
      (judges : now.Judges false judged) (quiet : ∀ o ∈ seen, o.Quiet)
      (noEvents : S.eventPass { now with passPerformed := false } = none)
      (arranges : now.Arranges ((rule, index) :: rest)) :
      PassTurn now state closes
        ({ now with passPerformed := false }, ⟨rest, true, .rule⟩,
          .yield [now.ruleFrame rule index])
        (.exchange .stopSignal false :: (judged ++ seen))
  | idles {judged seen : List Occurrence}
      (running : now.result.isRunning = true) (goesOn : closes = false)
      (nothing : Queues now state [])
      (judges : now.Judges false judged) (quiet : ∀ o ∈ seen, o.Quiet)
      (noEvents : S.eventPass { now with passPerformed := false } = none) :
      PassTurn now state closes ({ now with passPerformed := false }, {}, .yield [])
        (.exchange .stopSignal false :: (judged ++ seen))
  -- No run comes to this: a module that has tried a rule has rules.
  | recloses {judged seen again rest : List Occurrence}
      {ended : Activation × PassState × Option Outcome}
      (running : now.result.isRunning = true) (closed : closes = true)
      (ruleless : now.module.rules = [])
      (judges : now.Judges false judged) (quiet : ∀ o ∈ seen, o.Quiet)
      (ends : S.EndsPass { now with passPerformed := false } ended again rest) :
      PassTurn now state closes (ended.1, ended.2.1, ended.2.2.getD (.yield []))
        (.exchange .stopSignal false :: (judged ++ seen ++ (again ++ rest)))

private theorem endPass_logs (now : Activation) (state : PassState) :
    (S.traced.endPass now state).Logs fun left seen =>
      ∃ judged rest, seen = judged ++ rest ∧ S.EndsPass now left judged rest := by
  unfold endPass
  refine (S.exitHolds_logs now).bind fun holds judged judges => ?_
  cases holds with
  | true =>
      refine (S.finish_logs now).bind fun left seen departs => ?_
      refine Exec.logs_pure ⟨judged, seen, ?_, .inl ⟨judges, _, rfl, departs⟩⟩
      rw [List.append_nil]
  | false =>
      refine (S.nextPass_logs now).bind fun later seen next => ?_
      obtain ⟨rfl, quiet⟩ := next
      have same (a : Activation) : S.traced.eventPass a = S.eventPass a := rfl
      rw [same]
      cases pass : S.eventPass { now with passPerformed := false } with
      | some frames =>
          refine Exec.logs_pure ⟨judged, seen, ?_, .inr ⟨judges, quiet, rfl, .inl ?_⟩⟩
          · rw [List.append_nil]
          · exact ⟨frames, pass, rfl⟩
      | none =>
          refine Exec.logs_pure ⟨judged, seen, ?_, .inr ⟨judges, quiet, rfl, .inr ?_⟩⟩
          · rw [List.append_nil]
          · exact ⟨pass, rfl⟩

/-- A module tries the next rule, or comes to the end of a pass that has none left. -/
theorem tryNext_logs (now : Activation) (state : PassState) :
    (S.traced.tryNext now state).Logs fun left seen =>
      (∃ rule index rest, Queues now state ((rule, index) :: rest) ∧ seen = [] ∧
        left = (now, ⟨rest, true, .rule⟩, .yield [now.ruleFrame rule index])) ∨
      (Queues now state [] ∧ ∃ judged rest ended, seen = judged ++ rest ∧
        S.EndsPass now ended judged rest ∧
        left = (ended.1, ended.2.1, ended.2.2.getD (.yield []))) := by
  unfold tryNext
  refine (openPass_logs now state).bind fun opened seen opens => ?_
  obtain ⟨rfl, opens⟩ := opens
  have queues : Queues now state opened.queue ∧ opened.isOpen = true := by
    rcases opens with ⟨isOpen, rfl⟩ | ⟨isClosed, order, arranges, rfl⟩
    · exact ⟨.inl ⟨isOpen, rfl⟩, isOpen⟩
    · exact ⟨.inr ⟨isClosed, arranges⟩, rfl⟩
  obtain ⟨queue, isOpen, awaiting⟩ := opened
  obtain ⟨queues, opened⟩ := queues
  change isOpen = true at opened
  subst opened
  cases queue with
  | cons next rest =>
      obtain ⟨rule, index⟩ := next
      exact Exec.logs_pure (.inl ⟨rule, index, rest, queues, rfl, rfl⟩)
  | nil =>
      refine (S.endPass_logs now _).bind fun ended seen ends => ?_
      obtain ⟨judged, rest, rfl, ends⟩ := ends
      refine Exec.logs_pure (.inr ⟨queues, judged, rest, ended, ?_, ends, rfl⟩)
      rw [List.append_nil, List.nil_append]

theorem resumePasses_logs (a : Activation) (state : PassState) (previous : Option RunResult) :
    (S.traced.resumePasses a state previous).Logs
      (S.PassTurn (state.absorb a previous).1 { state with awaiting := .nothing }
        (state.absorb a previous).2) := by
  unfold resumePasses
  obtain ⟨now, closes⟩ := state.absorb a previous
  refine (S.mustStop_logs now).bind fun stop asked polled => ?_
  cases stop with
  | true =>
      refine (S.finish_logs now).bind fun left seen departs => ?_
      refine Exec.logs_pure ?_
      rw [List.append_nil]
      refine .stops ?_ departs
      rcases polled with ⟨stops, _, noted⟩ | ⟨_, noted⟩
      · exact .inl ⟨stops, noted⟩
      · exact .inr noted
  | false =>
      obtain ⟨running, rfl⟩ : now.result.isRunning = true ∧
          asked = [.exchange .stopSignal false] := by
        rcases polled with ⟨_, impossible, _⟩ | polled
        · cases impossible
        · exact polled
      cases closes with
      | false =>
          refine (S.tryNext_logs now _).mono fun left seen tried => ?_
          rcases tried with ⟨rule, index, rest, queues, rfl, rfl⟩ |
            ⟨nothing, judged, rest, ended, rfl, ends, rfl⟩
          · exact .tries running rfl queues
          · have closing : ClosesPass now { state with awaiting := .nothing } false :=
              .inr ⟨rfl, nothing⟩
            rw [List.singleton_append]
            obtain ⟨later, after, outcome⟩ := ended
            rcases ends with ⟨judges, outcome, rfl, departs⟩ | ⟨judges, quiet, rfl, goesOn⟩
            · exact .exits running closing judges departs
            · rcases goesOn with ⟨frames, events, same⟩ | ⟨noEvents, same⟩
              · cases same
                exact .separates running closing judges quiet events
              · cases same
                exact .idles running rfl nothing judges quiet noEvents
      | true =>
          refine (S.endPass_logs now _).bind fun left seen ended => ?_
          obtain ⟨judged, rest, rfl, ended⟩ := ended
          obtain ⟨later, after, outcome⟩ := left
          rcases ended with ⟨judges, outcome, rfl, departs⟩ | ⟨judges, quiet, rfl, goesOn⟩
          · refine Exec.logs_pure ?_
            rw [List.append_nil, List.singleton_append]
            exact .exits running (.inl rfl) judges departs
          · rcases goesOn with ⟨frames, events, same⟩ | ⟨noEvents, same⟩
            · cases same
              refine Exec.logs_pure ?_
              rw [List.append_nil, List.singleton_append]
              exact .separates running (.inl rfl) judges quiet events
            · cases same
              refine (S.tryNext_logs _ _).mono fun left seen tried => ?_
              rw [List.singleton_append]
              rcases tried with ⟨rule, index, queue, queues, rfl, rfl⟩ |
                ⟨nothing, again, more, ended, rfl, ends, rfl⟩
              · rcases queues with ⟨impossible, _⟩ | ⟨_, arranges⟩
                · cases impossible
                · rw [List.append_nil]
                  exact .reopens running rfl judges quiet noEvents arranges
              · rcases nothing with ⟨impossible, _⟩ | ⟨_, arranges⟩
                · cases impossible
                · exact .recloses running rfl (arranges.eq_nil_iff.mp rfl) judges quiet ends

end Setting

end CognitiveAgent
