import CognitiveAgent.Proofs.PassTurns

/-!
A ledger for a module that tries its rules in order. It holds what the closed passes have tried,
rule by rule, and what the current pass has tried. Main statement: what such a module does when it
is resumed is one move by the ledger, and the ledger goes on telling the state of the module.
-/

set_option autoImplicit false

namespace CognitiveAgent

variable {σ ω : Type}

/-- What a module has tried, rule by rule: the position of the rule and the result. -/
structure Ledger where
  passes : List (List (Nat × RunResult)) := []
  tried : List (Nat × RunResult) := []

namespace Ledger

def close (l : Ledger) : Ledger := { passes := l.passes ++ [l.tried] }

/-- The ledger after the children have come to a result, which counts if they are a rule. -/
def hear (l : Ledger) : List Frame → Option RunResult → Ledger
  | [.rule x], some r => { l with tried := l.tried ++ [(x.index, r)] }
  | _, _ => l

def acted (l : Ledger) : Bool := l.tried.any (·.2.performedAction)

def indices (l : Ledger) : List Nat := (l.passes.flatten ++ l.tried).map (·.1)

theorem hear_other (l : Ledger) {children : List Frame} {previous : Option RunResult}
    (other : ∀ x, children.getLast? ≠ some (.rule x)) : l.hear children previous = l := by
  unfold hear
  split
  · rename_i x r
    exact absurd rfl (other x)
  · rfl

theorem passes_hear (l : Ledger) (children : List Frame) (previous : Option RunResult) :
    (l.hear children previous).passes = l.passes := by
  unfold hear
  split <;> rfl

theorem indices_close (l : Ledger) : l.close.indices = l.indices := by
  simp [close, indices]

theorem indices_hear (l : Ledger) (x : RuleFrame) (r : RunResult) :
    (l.hear [.rule x] (some r)).indices = l.indices ++ [x.index] := by
  simp [hear, indices]

end Ledger

namespace Activation

variable (a : Activation)

def closes (tried : List (Nat × RunResult)) : Bool :=
  tried.length == a.module.rules.length ||
    (!a.order.triesAll && tried.getLast?.any (·.2.performedAction))

/-- Positions that a pass may begin with: the first ones in some order of all rules, which is their
own unless they are shuffled. -/
def Leads (indices : List Nat) : Prop :=
  ∃ full, full.Perm (List.range a.module.rules.length) ∧
    (a.order.shufflesRules = false → full = List.range a.module.rules.length) ∧ indices <+: full

/-- The rules of a pass follow an order, none of them comes twice, and the pass was not over before
the last one. -/
structure Orderly (pass : List (Nat × RunResult)) : Prop where
  leads : a.Leads (pass.map (·.1))
  distinct : (pass.map (·.1)).Nodup
  goesOn : ∀ part, part <+: pass → part ≠ pass → a.closes part = false

/-- The exit condition is judged once, with these answers to the question for goals, after a pass
that has or has not acted. -/
def Judged (acted holds : Bool) (answers : List Bool) : Prop :=
  match a.module.exit with
  | .noGoals => answers = [!holds]
  | .noAction => holds = !acted ∧ answers = []
  | .always => holds = true ∧ answers = []
  | .never => holds = false ∧ answers = []

variable {a}

private theorem closes_concat (tried : List (Nat × RunResult)) (index : Nat) (r : RunResult) :
    a.closes (tried ++ [(index, r)]) =
      (tried.length + 1 == a.module.rules.length ||
        (!a.order.triesAll && r.performedAction)) := by
  simp [closes]

private theorem closes_nil : a.closes [] = true ↔ a.module.rules = [] := by
  cases rules : a.module.rules <;> simp [closes, rules]

theorem Leads.nil : a.Leads [] :=
  ⟨_, .refl _, fun _ => rfl, List.nil_prefix⟩

private theorem Leads.nodup {indices : List Nat} (leads : a.Leads indices) : indices.Nodup := by
  obtain ⟨full, perm, _, begins⟩ := leads
  exact begins.sublist.nodup (perm.nodup_iff.mpr List.nodup_range)

theorem Orderly.nil : a.Orderly [] := by
  refine ⟨.nil, List.nodup_nil, fun part begins proper => ?_⟩
  exact absurd (List.prefix_nil.mp begins) proper

theorem Orderly.concat {pass : List (Nat × RunResult)} {index : Nat} (orderly : a.Orderly pass)
    (goesOn : a.closes pass = false) (leads : a.Leads (pass.map (·.1) ++ [index]))
    (r : RunResult) : a.Orderly (pass ++ [(index, r)]) := by
  have positions : (pass ++ [(index, r)]).map (·.1) = pass.map (·.1) ++ [index] := by simp
  refine ⟨?_, ?_, fun part begins proper => ?_⟩
  · rw [positions]
    exact leads
  · rw [positions]
    exact leads.nodup
  · rcases List.prefix_concat_iff.mp begins with whole | within
    · exact absurd whole proper
    · by_cases all : part = pass
      · rw [all]
        exact goesOn
      · exact orderly.goesOn part within all

theorem Arranges.leads {queue : List (Rule × Nat)} {indices : List Nat}
    (arranges : a.Arranges queue) (begins : indices <+: queue.map (·.2)) : a.Leads indices := by
  have positions : a.module.rules.zipIdx.map (·.2) = List.range a.module.rules.length := by
    rw [List.range_eq_range']
    exact List.zipIdx_map_snd _ _
  refine ⟨queue.map (·.2), ?_, ?_, begins⟩
  · rw [← positions]
    exact arranges.1.map _
  · intro plain
    rw [arranges.2 plain, positions]

theorem Arranges.found {queue : List (Rule × Nat)} {rule : Rule} {index : Nat}
    (arranges : a.Arranges queue) (member : (rule, index) ∈ queue) :
    a.module.rules[index]? = some rule :=
  List.mem_zipIdx_iff_getElem?.mp (arranges.1.mem_iff.mp member)

theorem Arranges.length {queue : List (Rule × Nat)} (arranges : a.Arranges queue) :
    (queue.map (·.2)).length = a.module.rules.length := by
  rw [List.length_map, arranges.1.length_eq, List.length_zipIdx]

theorem Judges.judged {holds : Bool} {seen : List Occurrence} (judges : a.Judges holds seen) :
    a.Judged a.passPerformed holds (goalAnswers seen) := by
  unfold Judges at judges
  unfold Judged
  cases exit : a.module.exit with
  | noGoals => simp only [exit] at judges ⊢; simp [judges]
  | noAction => simp only [exit] at judges ⊢; simp [judges]
  | always => simp only [exit] at judges ⊢; simp [judges]
  | never => simp only [exit] at judges ⊢; simp [judges]

theorem Departs.unasked {outcome : Outcome} {seen : List Occurrence}
    (departs : a.Departs outcome seen) : goalAnswers seen = [] := by
  obtain ⟨_, rest, rfl, quiet, _⟩ := departs
  rw [goalAnswers_stopSignal]
  exact goalAnswers_of_quiet quiet

theorem Departs.done {outcome : Outcome} {seen : List Occurrence}
    (departs : a.Departs outcome seen) (clean : ∀ failure, outcome ≠ .failed failure) :
    ∃ r, outcome = .done r := by
  obtain ⟨_, _, _, _, ⟨failure, failed⟩ | done⟩ := departs
  · exact absurd failed (clean failure)
  · exact ⟨_, done⟩

end Activation

/-! ### Moves -/

/-- What a module does in a turn, with its ledger before the turn and after it. It `stop`s if it
is told to; else it tries a rule unless the pass is over. At the end of a pass it leaves if its
exit condition holds, and goes on with the next pass if not: after the event module if it is the
main one, else at once. -/
inductive Setting.PassMove (S : Setting σ ω) (a : Activation) (stop : Bool) (answers : List Bool)
    (l : Ledger) : Outcome → Ledger → Prop where
  | stops {r : RunResult} (stopped : stop = true) (unasked : answers = []) :
      S.PassMove a stop answers l (.done r) l
  | tries {rule : Rule} {index : Nat} (free : stop = false) (goesOn : a.closes l.tried = false)
      (unasked : answers = []) (found : a.module.rules[index]? = some rule)
      (leads : a.Leads (l.tried.map (·.1) ++ [index])) :
      S.PassMove a stop answers l (.yield [a.ruleFrame rule index]) l
  | exits {r : RunResult} (free : stop = false) (ended : a.closes l.tried = true)
      (holds : a.Judged l.acted true answers) :
      S.PassMove a stop answers l (.done r) l.close
  | separates {event : Module} (free : stop = false) (ended : a.closes l.tried = true)
      (goesOn : a.Judged l.acted false answers) (main : a.isMain = true)
      (events : S.program.event = some event) :
      S.PassMove a stop answers l
        (.yield [.hole, .hole, .hole, .module (.start event .empty (some a.order) none)]) l.close
  | reopens {rule : Rule} {index : Nat} (free : stop = false) (ended : a.closes l.tried = true)
      (goesOn : a.Judged l.acted false answers)
      (noEvents : a.isMain = true → S.program.event = none)
      (found : a.module.rules[index]? = some rule) (leads : a.Leads [index]) :
      S.PassMove a stop answers l (.yield [a.ruleFrame rule index]) l.close
  | idles (free : stop = false) (ended : a.closes l.tried = true)
      (goesOn : a.Judged l.acted false answers)
      (noEvents : a.isMain = true → S.program.event = none) (ruleless : a.module.rules = []) :
      S.PassMove a stop answers l (.yield []) l.close

namespace Setting.PassMove

variable {S : Setting σ ω} {a : Activation} {stop : Bool} {answers : List Bool} {l after : Ledger}
variable {children : List Frame}

/-- A module that goes on has not come to the end of a pass, or has closed it. -/
theorem goes_on (move : S.PassMove a stop answers l (.yield children) after) :
    (after = l ∧ answers = []) ∨
    (after = l.close ∧ a.closes l.tried = true ∧ a.Judged l.acted false answers) := by
  cases move with
  | tries free goesOn unasked => exact .inl ⟨rfl, unasked⟩
  | separates free ended goesOn => exact .inr ⟨rfl, ended, goesOn⟩
  | reopens free ended goesOn => exact .inr ⟨rfl, ended, goesOn⟩
  | idles free ended goesOn => exact .inr ⟨rfl, ended, goesOn⟩

/-- A module that goes on has pushed a rule of an open pass, or its event module or nothing. -/
theorem pushes (move : S.PassMove a stop answers l (.yield children) after) :
    (∃ rule index, children = [a.ruleFrame rule index] ∧ a.closes after.tried = false ∧
      a.Leads (after.tried.map (·.1) ++ [index])) ∨
    (∀ x, children.getLast? ≠ some (.rule x)) := by
  cases move with
  | tries free goesOn unasked found leads => exact .inl ⟨_, _, rfl, goesOn, leads⟩
  | separates =>
      refine .inr fun x impossible => ?_
      simp at impossible
  | reopens free ended goesOn noEvents found leads =>
      refine .inl ⟨_, _, rfl, ?_, leads⟩
      apply Bool.eq_false_iff.mpr
      intro empty
      rw [Activation.closes_nil.mp empty] at found
      cases found
  | idles => exact .inr fun x impossible => by cases impossible

end Setting.PassMove

/-- The ledger tells the state of a module that has `heard` what it waited for: its mark of the
pass, the rules it has still to try, and whether the result closes the pass. -/
structure Activation.Tracks (a : Activation) (l : Ledger) (state : PassState)
    (heard : Activation × Bool) : Prop where
  same : ∃ result, heard.1 = { a with result, passPerformed := l.acted }
  queue : (state.isOpen = false ∧ l.tried = []) ∨
    (state.isOpen = true ∧ ∃ done, a.Arranges (done ++ state.queue) ∧
      done.map (·.2) = l.tried.map (·.1))
  closes : heard.2 = (!l.tried.isEmpty && a.closes l.tried)

namespace Activation.Tracks

variable {a now : Activation} {l : Ledger} {state : PassState} {closes : Bool}

theorem rest {queue : List (Rule × Nat)} (tracks : a.Tracks l state (now, closes))
    (queues : Setting.Queues now { state with awaiting := .nothing } queue) :
    ∃ done, a.Arranges (done ++ queue) ∧ done.map (·.2) = l.tried.map (·.1) := by
  obtain ⟨⟨_, same⟩, states, _⟩ := tracks
  change now = _ at same
  subst same
  rcases queues with ⟨isOpen, here⟩ | ⟨isClosed, arranges⟩
  · rcases states with ⟨isClosed, _⟩ | ⟨_, arranged⟩
    · exact absurd isOpen (Bool.eq_false_iff.mp isClosed)
    · rw [← here]
      exact arranged
  · rcases states with ⟨_, nothing⟩ | ⟨isOpen, _⟩
    · rw [nothing]
      exact ⟨[], arranges, rfl⟩
    · exact absurd isOpen (Bool.eq_false_iff.mp isClosed)

theorem ended (tracks : a.Tracks l state (now, closes))
    (ends : Setting.ClosesPass now { state with awaiting := .nothing } closes) :
    a.closes l.tried = true := by
  rcases ends with rfl | ⟨_, queues⟩
  · exact (Bool.and_eq_true_iff.mp tracks.closes.symm).2
  · -- Nothing is left to try, so the pass has tried everything.
    obtain ⟨done, arranges, shape⟩ := tracks.rest queues
    have all := arranges.length
    rw [List.append_nil, shape, List.length_map] at all
    simp [Activation.closes, all]

private theorem not_ended {next : Rule × Nat} {queue : List (Rule × Nat)}
    (tracks : a.Tracks l state (now, false))
    (queues : Setting.Queues now { state with awaiting := .nothing } (next :: queue)) :
    a.closes l.tried = false := by
  obtain ⟨done, arranges, shape⟩ := tracks.rest queues
  have total := arranges.length
  have told := tracks.closes
  cases tried : l.tried with
  | nil =>
      apply Bool.eq_false_iff.mpr
      intro ended
      rw [Activation.closes_nil.mp ended] at total
      simp at total
  | cons first others =>
      rw [tried] at told
      exact told.symm

end Activation.Tracks

structure Activation.Continues (a : Activation) (l : Ledger) (left : Activation) (later : PassState)
    (children : List Frame) : Prop where
  prepared : left.prepared = a.prepared
  tracks : ∀ previous : Option RunResult, (previous = none ↔ children = []) →
    a.Tracks (l.hear children previous) later (later.absorb left previous)

namespace Activation.Continues

variable {a : Activation} {l : Ledger} {result : RunResult}

theorem rule {done queue : List (Rule × Nat)} {rule : Rule} {index : Nat}
    (arranges : a.Arranges (done ++ (rule, index) :: queue))
    (shape : done.map (·.2) = l.tried.map (·.1)) :
    a.Continues l { a with result, passPerformed := l.acted } ⟨queue, true, .rule⟩
      [a.ruleFrame rule index] := by
  refine ⟨rfl, fun previous heard => ?_⟩
  cases previous with
  | none => cases heard.mp rfl
  | some r =>
      have total := arranges.length
      have tried := congrArg List.length shape
      simp only [List.map_append, List.length_append, List.length_map, List.map_cons,
        List.length_cons] at total tried
      refine ⟨⟨result.merge r, ?_⟩, .inr ⟨rfl, done ++ [(rule, index)], ?_, ?_⟩, ?_⟩
      · simp [PassState.absorb, Activation.absorb, Ledger.hear, Ledger.acted,
          Activation.ruleFrame]
      · rw [List.append_assoc]
        exact arranges
      · simp [Ledger.hear, Activation.ruleFrame, shape]
      · have last : queue.isEmpty = (l.tried.length + 1 == a.module.rules.length) := by
          rw [Bool.eq_iff_iff, List.isEmpty_iff_length_eq_zero, beq_iff_eq]
          omega
        change (queue.isEmpty || (!a.order.triesAll && r.performedAction)) =
          (!(l.tried ++ [(index, r)]).isEmpty && a.closes (l.tried ++ [(index, r)]))
        rw [Activation.closes_concat, last]
        simp

theorem events {event : Module} :
    a.Continues l.close { a with result, passPerformed := false } { awaiting := .eventPass }
      [.hole, .hole, .hole, .module (.start event .empty (some a.order) none)] := by
  refine ⟨rfl, fun previous heard => ?_⟩
  cases previous with
  | none => cases heard.mp rfl
  | some r => exact ⟨⟨_, rfl⟩, .inl ⟨rfl, rfl⟩, rfl⟩

theorem nothing : a.Continues l.close { a with result, passPerformed := false } {} [] := by
  refine ⟨rfl, fun previous heard => ?_⟩
  rw [heard.mpr rfl]
  exact ⟨⟨_, rfl⟩, .inl ⟨rfl, rfl⟩, rfl⟩

end Activation.Continues

namespace Setting

variable {S : Setting σ ω}

theorem exists_event {a : Activation} {frames : List Frame} (events : S.eventPass a = some frames) :
    a.isMain = true ∧ ∃ event, S.program.event = some event ∧
      frames = [.hole, .hole, .hole, .module (.start event .empty (some a.order) none)] := by
  unfold eventPass at events
  split at events
  · rename_i main
    obtain ⟨event, present, same⟩ := Option.map_eq_some_iff.mp events
    exact ⟨main, event, present, same.symm⟩
  · cases events

private theorem no_event {a : Activation} (noEvents : S.eventPass a = none)
    (main : a.isMain = true) :
    S.program.event = none := by
  unfold eventPass at noEvents
  rw [if_pos main] at noEvents
  exact Option.map_eq_none_iff.mp noEvents

variable {a now left : Activation} {l : Ledger} {state later : PassState} {closes : Bool}
variable {outcome : Outcome} {seen : List Occurrence}

/-- One turn of the module is one move by the ledger, and the ledger goes on telling its state. -/
theorem PassTurn.moves
    (turn : S.PassTurn now { state with awaiting := .nothing } closes (left, later, outcome) seen)
    (tracks : a.Tracks l state (now, closes)) (clean : ∀ failure, outcome ≠ .failed failure) :
    ∃ after, S.PassMove a (!now.result.isRunning || (polls seen).head? == some true)
        (goalAnswers seen) l outcome after ∧
      ∀ children, outcome = .yield children → a.Continues after left later children := by
  obtain ⟨result, same⟩ := tracks.same
  change now = _ at same
  subst same
  have free (running : result.isRunning = true) (rest : List Occurrence) :
      (!result.isRunning || (polls (.exchange .stopSignal false :: rest)).head? == some true) =
        false := by
    simp [running]
  have answers {holds : Bool} {judged rest : List Occurrence}
      (judges : ({ a with result, passPerformed := l.acted } : Activation).Judges holds judged)
      (unasked : goalAnswers rest = []) : a.Judged l.acted holds
        (goalAnswers (.exchange .stopSignal false :: (judged ++ rest))) := by
    rw [goalAnswers_stopSignal, goalAnswers_append, unasked, List.append_nil]
    exact judges.judged
  cases turn with
  | stops cause departs =>
      obtain ⟨r, rfl⟩ := departs.done clean
      refine ⟨l, .stops ?_ ?_, fun children impossible => by cases impossible⟩
      · rcases cause with ⟨stops, rfl⟩ | rfl
        · simp [stops]
        · simp
      · rcases cause with ⟨_, rfl⟩ | rfl
        · exact departs.unasked
        · simpa using departs.unasked
  | tries running goesOn next =>
      subst goesOn
      obtain ⟨done, arranges, shape⟩ := tracks.rest next
      refine ⟨l, .tries (free running _) (tracks.not_ended next) rfl
        (arranges.found (by simp)) (arranges.leads (by simp [shape])), ?_⟩
      intro children same
      cases same
      exact .rule arranges shape
  | exits running ends judges departs =>
      obtain ⟨r, rfl⟩ := departs.done clean
      exact ⟨l.close, .exits (free running _) (tracks.ended ends) (answers judges departs.unasked),
        fun children impossible => by cases impossible⟩
  | separates running ends judges quiet events =>
      obtain ⟨main, event, present, rfl⟩ := exists_event events
      refine ⟨l.close, .separates (free running _) (tracks.ended ends)
        (answers judges (goalAnswers_of_quiet quiet)) main present, ?_⟩
      intro children same
      cases same
      exact .events
  | @reopens rule index rest judged more running ends judges quiet noEvents arranges =>
      have order : a.Arranges ([] ++ (rule, index) :: rest) := arranges
      refine ⟨l.close, .reopens (free running _) (tracks.ended (.inl ends))
        (answers judges (goalAnswers_of_quiet quiet)) (no_event noEvents)
        (order.found (by simp)) (order.leads (by simp)), ?_⟩
      intro children same
      cases same
      exact .rule order rfl
  | idles running goesOn nothing judges quiet noEvents =>
      have ended := tracks.ended (.inr ⟨goesOn, nothing⟩)
      have ruleless : a.module.rules = [] := by
        have told := tracks.closes
        rw [goesOn, ended, Bool.and_true] at told
        have untried : l.tried = [] := by simpa using told
        rw [untried] at ended
        exact Activation.closes_nil.mp ended
      refine ⟨l.close, .idles (free running _) ended
        (answers judges (goalAnswers_of_quiet quiet)) (no_event noEvents) ruleless, ?_⟩
      intro children same
      cases same
      exact .nothing
  | recloses running closed ruleless judges quiet ends =>
      -- A pass that a rule has closed is one of a module with rules.
      have untried : l.tried = [] := by
        rcases tracks.queue with ⟨_, nothing⟩ | ⟨_, done, arranges, shape⟩
        · exact nothing
        · have total := arranges.length
          have tried := congrArg List.length shape
          rw [ruleless] at total
          simp only [List.length_map, List.length_append, List.length_nil] at total tried
          exact List.length_eq_zero_iff.mp (by omega)
      have told := tracks.closes
      rw [untried, closed] at told
      cases told

/-! ### Resuming a module that tries its rules in order -/

variable (S)

theorem resumeModule_turns {g : ModuleFrame} {state : PassState}
    (passes : g.strategy = .passes state) (previous : Option RunResult) :
    (S.traced.resumeModule g previous).Logs fun left seen =>
      (∃ failure, left.2 = .failed failure) ∨
      ∃ entry rest activation later, seen = entry ++ rest ∧ (∀ o ∈ entry, o.Quiet) ∧
        left.1 = ⟨activation, .passes later⟩ ∧
        S.PassTurn (state.absorb (S.present g) previous).1 { state with awaiting := .nothing }
          (state.absorb (S.present g) previous).2 (activation, later, left.2) rest := by
  have pursued (a : Activation) : (S.traced.pursue a g.strategy previous).Logs fun left seen =>
      ∃ activation later, left.1 = ⟨activation, .passes later⟩ ∧
        S.PassTurn (state.absorb a previous).1 { state with awaiting := .nothing }
          (state.absorb a previous).2 (activation, later, left.2) seen := by
    rw [passes]
    refine (S.resumePasses_logs a state previous).bind fun left seen turn => ?_
    refine Exec.logs_pure ⟨left.1, left.2.1, rfl, ?_⟩
    rw [List.append_nil]
    exact turn
  refine (S.resumeModule_pursues fun a _ => pursued a).mono fun left seen turns => ?_
  rcases turns with ⟨_, failed, _⟩ |
    ⟨entry, rest, noted, upkeep, activation, later, same, turn⟩
  · exact .inl failed
  · exact .inr ⟨entry, rest, activation, later, noted, fun o member => (upkeep o member).quiet,
      same, turn⟩

end Setting

end CognitiveAgent
