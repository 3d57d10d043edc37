import CognitiveAgent.Proofs.Rounds

/-!
Running a combo. A combo asks nothing of the world itself. It pushes its actions one by one, hears
what each has come to, and remembers only whether the last one was a call. Main statement: a combo
that completes has run its actions up to the first plain one that fails, whatever they have come to,
and its result is made up of theirs.
-/

set_option autoImplicit false

namespace CognitiveAgent

variable {σ ω : Type}

def Frame.isCall : Frame → Bool
  | .action x => x.action.isCall
  | .module _ | .rule _ | .combo _ | .hole => false

/-- The child is a plain action that has asked to stop or has done nothing. -/
def Round.Aborts (round : Round) : Prop :=
  round.child.isCall = false ∧
    (round.result.status ≠ .running ∨ round.result.performedAction = false)

private theorem RunResult.isFailure_iff (r : RunResult) :
    r.isFailure = true ↔ r.status ≠ .running ∨ r.performedAction = false := by
  simp only [isFailure, isRunning, Bool.or_eq_true, Bool.not_eq_true', beq_eq_false_iff_ne, ne_eq]

private theorem Round.aborts_iff (round : Round) :
    round.Aborts ↔ (!round.child.isCall && round.result.isFailure) = true := by
  rw [Aborts, Bool.and_eq_true, Bool.not_eq_true', RunResult.isFailure_iff]

namespace ComboFrame

variable (f : ComboFrame)

def actionOf (action : Action) : Frame :=
  .action { action, substitution := f.substitution, focus := f.focus, order := f.order }

/-- The course of a combo that completes: the actions that it has run are its first ones, in their
order. None but the last of them has aborted it, and the last has, unless it was the last of the
combo as well. In the turns of the combo itself nothing occurs. -/
structure Runs (rounds : List Round) (r : RunResult) : Prop where
  inOrder : rounds.map (·.child) <+: f.combo.map f.actionOf
  goesOn : ∀ round ∈ rounds.dropLast, ¬ round.Aborts
  ends : rounds.length = f.combo.length ∨ ∃ round, rounds.getLast? = some round ∧ round.Aborts
  afterCall : ∀ round, rounds.getLast? = some round → round.child.isCall = true →
    rounds.length = f.combo.length
  gathered : r = Round.gathered rounds
  silent : ∀ round ∈ rounds, round.seen = []

/-- Where the combo stands once it has pushed `final` after the rounds before. -/
structure Under (earlier : List Round) (final : Round) (rest : List Action) : Prop where
  pushed : f.combo.map f.actionOf = (earlier ++ [final]).map (·.child) ++ rest.map f.actionOf
  goesOn : ∀ round ∈ earlier, ¬ round.Aborts
  silent : ∀ round ∈ earlier ++ [final], round.seen = []

def waiting (rest : List Action) (call : Bool) (gathered : RunResult) : ComboFrame :=
  { f with pending := some rest, lastWasCall := call, result := gathered }

variable {f} {earlier : List Round} {final : Round} {rest : List Action}

theorem Under.next {action : Action} (under : f.Under earlier final (action :: rest))
    (goesOn : ¬ final.Aborts) (result : RunResult) :
    f.Under (earlier ++ [final]) ⟨[], f.actionOf action, result⟩ rest := by
  constructor
  · simp only [under.pushed, List.map_append, List.map_cons, List.map_nil, List.append_assoc,
      List.cons_append, List.nil_append]
  · intro round member
    rcases List.mem_append.mp member with inside | last
    · exact under.goesOn round inside
    · rw [List.mem_singleton.mp last]
      exact goesOn
  · intro round member
    rcases List.mem_append.mp member with inside | last
    · exact under.silent round inside
    · rw [List.mem_singleton.mp last]

theorem Under.runs (under : f.Under earlier final rest) (ends : rest = [] ∨ final.Aborts) :
    f.Runs (earlier ++ [final]) ((Round.gathered earlier).merge final.result) := by
  have all (nothing : rest = []) : (earlier ++ [final]).length = f.combo.length := by
    have lengths := congrArg List.length under.pushed
    rw [nothing, List.map_nil, List.append_nil, List.length_map, List.length_map] at lengths
    exact lengths.symm
  refine ⟨⟨_, under.pushed.symm⟩, ?_, ?_, ?_, (Round.gathered_append earlier final).symm,
    under.silent⟩
  · rw [List.dropLast_concat]
    exact under.goesOn
  · exact ends.imp all fun aborts => ⟨final, List.getLast?_concat, aborts⟩
  · intro round last call
    rw [List.getLast?_concat] at last
    cases last
    rcases ends with nothing | aborts
    · exact all nothing
    · rw [aborts.1] at call
      cases call

/-! ### One turn -/

private theorem resume_fresh (fresh : f.pending = none) (previous : Option RunResult) :
    f.resume previous = f.next f.combo := by
  unfold resume
  rw [fresh]

/-- The turn in which the combo hears what its last action has come to. -/
theorem resume_waiting (f : ComboFrame) (rest : List Action) (gathered : RunResult)
    (final : Round) :
    (final.Aborts ∧ (f.waiting rest final.child.isCall gathered).resume (some final.result) =
      (f.waiting rest final.child.isCall (gathered.merge final.result),
        .done (gathered.merge final.result))) ∨
    (¬ final.Aborts ∧ (f.waiting rest final.child.isCall gathered).resume (some final.result) =
      (f.waiting rest final.child.isCall (gathered.merge final.result)).next rest) := by
  rw [final.aborts_iff]
  by_cases aborts : (!final.child.isCall && final.result.isFailure) = true
  · exact .inl ⟨aborts, if_pos aborts⟩
  · exact .inr ⟨aborts, if_neg aborts⟩

end ComboFrame

namespace Setting

variable {S : Setting σ ω} {f : ComboFrame} {later : Frame} {outcome : Outcome}
variable {seen : List Occurrence} {previous : Option RunResult}

theorem Takes.of_combo (takes : S.Takes (.combo f) previous later outcome seen) :
    later = .combo (f.resume previous).1 ∧ outcome = (f.resume previous).2 ∧ seen = [] := by
  obtain ⟨situation, returns, noted⟩ := takes
  cases returns
  exact ⟨rfl, rfl, noted.symm⟩

/-- In any situation at all, a combo takes the turn that it can take. -/
theorem takes_combo (S : Setting σ ω) (situation : Situation σ ω) {left : ComboFrame}
    (resumed : f.resume previous = (left, outcome)) :
    S.Takes (.combo f) previous (.combo left) outcome [] := by
  refine ⟨situation, ?_, rfl⟩
  change (Frame.combo (f.resume previous).1, (f.resume previous).2) = _
  rw [resumed]

/-! ### One round after the other -/

/-- Between two turns the combo waits with the actions that are left, and with what it has gathered
of all rounds but the last. -/
theorem Rounds.of_combo {rounds : List Round} {x : Frame} (fresh : f.pending = none)
    (start : f.result = .start) (course : S.Rounds (.combo f) rounds x) :
    (rounds = [] ∧ x = .combo f) ∨
    ∃ earlier final rest, rounds = earlier ++ [final] ∧ f.Under earlier final rest ∧
      x = .combo (f.waiting rest final.child.isCall (Round.gathered earlier)) := by
  induction course with
  | opens => exact .inl ⟨rfl, rfl⟩
  | @next rounds x later child seen before turn result ih =>
      right
      rcases ih with ⟨rfl, rfl⟩ | ⟨earlier, final, rest, rfl, under, rfl⟩
      · obtain ⟨rfl, pushes, rfl⟩ := turn.of_combo
        rw [ComboFrame.resume_fresh fresh] at pushes ⊢
        cases actions : f.combo with
        | nil =>
            rw [actions] at pushes
            cases pushes
        | cons action rest =>
            rw [actions] at pushes
            cases pushes
            refine ⟨[], ⟨[], f.actionOf action, result⟩, rest, rfl, ⟨?_, ?_, ?_⟩, ?_⟩
            · rw [actions]
              rfl
            · exact fun _ => List.not_mem_nil.elim
            · intro round member
              rw [List.mem_singleton.mp member]
            · unfold ComboFrame.next ComboFrame.waiting
              rw [start]
              rfl
      · rw [Round.heard_append] at turn
        obtain ⟨rfl, pushes, rfl⟩ := turn.of_combo
        rcases f.resume_waiting rest (Round.gathered earlier) final with
          ⟨_, done⟩ | ⟨goesOn, resumed⟩
        · rw [done] at pushes
          cases pushes
        · rw [resumed] at pushes ⊢
          cases rest with
          | nil => cases pushes
          | cons action rest =>
              cases pushes
              refine ⟨earlier ++ [final], ⟨[], f.actionOf action, result⟩, rest, rfl,
                under.next goesOn result, ?_⟩
              rw [Round.gathered_append]
              rfl

/-- A combo that is done has run all its actions, or it has been aborted. -/
theorem Finishes.of_combo {rounds : List Round} {last : List Occurrence} {r : RunResult}
    (fresh : f.pending = none) (start : f.result = .start)
    (finishes : S.Finishes (.combo f) rounds last r) : f.Runs rounds r ∧ last = [] := by
  obtain ⟨x, later, course, takes⟩ := finishes
  rcases course.of_combo fresh start with ⟨rfl, rfl⟩ | ⟨earlier, final, rest, rfl, under, rfl⟩
  · obtain ⟨_, done, rfl⟩ := takes.of_combo
    rw [ComboFrame.resume_fresh fresh] at done
    cases actions : f.combo with
    | cons action rest =>
        rw [actions] at done
        cases done
    | nil =>
        rw [actions] at done
        cases done
        refine ⟨⟨List.nil_prefix, fun _ => List.not_mem_nil.elim, .inl ?_, ?_, start, ?_⟩, rfl⟩
        · exact (congrArg List.length actions).symm
        · intro round impossible
          cases impossible
        · exact fun _ => List.not_mem_nil.elim
  · rw [Round.heard_append] at takes
    obtain ⟨_, done, rfl⟩ := takes.of_combo
    rcases f.resume_waiting rest (Round.gathered earlier) final with
      ⟨aborts, resumed⟩ | ⟨_, resumed⟩
    · rw [resumed] at done
      cases done
      exact ⟨under.runs (.inr aborts), rfl⟩
    · rw [resumed] at done
      cases rest with
      | cons action rest => cases done
      | nil =>
          cases done
          exact ⟨under.runs (.inl rfl), rfl⟩

private theorem Rounds.finishes_combo (situation : Situation σ ω) {earlier : List Round}
    {final : Round} {now left : ComboFrame} {r : RunResult}
    (course : S.Rounds (.combo f) (earlier ++ [final]) (.combo now))
    (resumed : now.resume (some final.result) = (left, .done r)) :
    S.Finishes (.combo f) (earlier ++ [final]) [] r := by
  have takes := S.takes_combo situation resumed
  rw [← Round.heard_append earlier final] at takes
  exact ⟨_, _, course, takes⟩

/-- Whatever its actions come to, a combo that waits for one of them gets to its end. -/
theorem Rounds.exists_finishes (situation : Situation σ ω) {earlier : List Round} {final : Round}
    {rest : List Action} {gathered : RunResult}
    (course : S.Rounds (.combo f) (earlier ++ [final])
      (.combo (f.waiting rest final.child.isCall gathered)))
    (results : List RunResult) (enough : results.length = rest.length) :
    ∃ rounds r, S.Finishes (.combo f) rounds [] r ∧
      rounds.map (·.result) <+: (earlier ++ [final]).map (·.result) ++ results := by
  induction rest generalizing earlier final gathered results with
  | nil =>
      rcases f.resume_waiting [] gathered final with ⟨_, resumed⟩ | ⟨_, resumed⟩
      · exact ⟨_, _, course.finishes_combo situation resumed, List.prefix_append ..⟩
      · exact ⟨_, _, course.finishes_combo situation resumed, List.prefix_append ..⟩
  | cons action rest ih =>
      rcases f.resume_waiting (action :: rest) gathered final with ⟨_, resumed⟩ | ⟨_, resumed⟩
      · exact ⟨_, _, course.finishes_combo situation resumed, List.prefix_append ..⟩
      · cases results with
        | nil => cases enough
        | cons result results =>
            have takes := S.takes_combo situation resumed
            rw [← Round.heard_append earlier final] at takes
            obtain ⟨rounds, r, finishes, heard⟩ :=
              ih (course.next takes result) results (Nat.succ.inj enough)
            refine ⟨rounds, r, finishes, ?_⟩
            rw [List.map_append, List.append_assoc] at heard
            exact heard

private theorem exists_finishes_combo (S : Setting σ ω) (situation : Situation σ ω)
    (fresh : f.pending = none) (results : List RunResult)
    (enough : results.length = f.combo.length) :
    ∃ rounds r, S.Finishes (.combo f) rounds [] r ∧ rounds.map (·.result) <+: results := by
  have first := ComboFrame.resume_fresh fresh none
  cases actions : f.combo with
  | nil =>
      rw [actions] at first
      exact ⟨[], f.result, ⟨_, _, .opens, S.takes_combo situation first⟩, List.nil_prefix⟩
  | cons action rest =>
      rw [actions] at first enough
      cases results with
      | nil => cases enough
      | cons result results =>
          have course : S.Rounds (.combo f) ([] ++ [⟨[], f.actionOf action, result⟩])
              (.combo (f.waiting rest action.isCall f.result)) :=
            Rounds.opens.next (S.takes_combo situation first) result
          exact course.exists_finishes situation results (Nat.succ.inj enough)

end Setting

/-- A combo that completes without failure has run its actions in order, each once and under its own
bindings, focus and order, up to the first plain action that has asked to stop or has done nothing,
or else all of them. A call never ends it. Its result is made up of theirs. This holds whatever the
actions come to, and whatever they come to the combo does complete; so it holds of every combo that
completes while a module runs, with the actions that have run there. -/
theorem combo_execution (S : Setting σ ω) :
    (∀ (f : ComboFrame) (rounds : List Round) (last : List Occurrence) (r : RunResult),
      f.pending = none → f.result = .start → S.Finishes (.combo f) rounds last r →
        f.Runs rounds r ∧ last = []) ∧
    (∀ (f : ComboFrame) (results : List RunResult), f.pending = none →
      results.length = f.combo.length → Nonempty (Situation σ ω) →
        ∃ rounds r, S.Finishes (.combo f) rounds [] r ∧ rounds.map (·.result) <+: results) ∧
    ∀ (g : ModuleFrame) (situation : Situation σ ω) (x : ComboFrame) (below : List Frame) (n : Nat)
      (r : RunResult), g.Fresh →
      (History.ofModule S g situation).Completes n (.combo x) below (.ok r) →
      let H := History.ofModule S g situation
      let f := { x with pending := none, lastWasCall := false, result := .start }
      ∃ first rounds, H.Lifetime (.combo f) below first n ∧ H.Rounds below first rounds n ∧
        S.Finishes (.combo f) rounds (H.occurrences n) r ∧ f.Runs rounds r := by
  refine ⟨fun f rounds last r fresh start => Setting.Finishes.of_combo fresh start, ?_, ?_⟩
  · rintro f results fresh enough ⟨situation⟩
    exact S.exists_finishes_combo situation fresh results enough
  · intro g situation x below n r fresh completes H f
    have origin : g.origin = g := by cases fresh <;> rfl
    have routed : H.setting.Routed H.start := .ready (.bottom g) fresh.waits
    have alone : H.start.frames = [.module g] := rfl
    have here : (Frame.combo x :: below) <:+ (H.stack n).frames := ⟨[], completes.frames.symm⟩
    obtain ⟨first, lifetime⟩ :=
      History.exists_lifetime alone (congrArg Frame.module origin) here Frame.noConfusion
    obtain ⟨rounds, course, finishes⟩ :=
      completes.exists_rounds routed rfl (Nat.le_refl 1) lifetime rfl
    exact ⟨first, rounds, lifetime, course, finishes, (finishes.of_combo rfl rfl).1⟩

def courier : Module :=
  { Module.ofName "courier" with
    rules := [.ofKind .ifThen .always
      [.nested (.unnamed "look" []), .insert (.atom "ready"),
        .guarded "leave" [] (.belief (.atom "called")), .perform "report" []]] }

def couriering : History Simulation.World Simulation.Trace :=
  .ofModule (Simulation.setting ⟨[], none, some courier, none, none⟩ .linear false)
    (.startMain courier) (Simulation.situation {} ⟨Vector.replicate 8 0, 0⟩)

/-- Nothing comes of looking around, and the combo goes on. It ends in turn 10, since the courier
has not been called: nothing is reported. -/
theorem combo_execution_of_courier :
    ∃ (x : ComboFrame) (below : List Frame),
      couriering.Completes 10 (.combo x) below (.ok .action) ∧
      ∃ first rounds, couriering.Rounds below first rounds 10 ∧ rounds ≠ [] ∧
        { x with pending := none, lastWasCall := false, result := .start : ComboFrame }.Runs rounds
          .action := by
  have kinds : (couriering.stack 10).frames.map Frame.kind = [.combo, .rule, .module] := by
    decide +kernel
  have given : (couriering.stack 11).given = some .action := by decide +kernel
  cases frames : (couriering.stack 10).frames with
  | nil =>
      rw [frames] at kinds
      cases kinds
  | cons top below =>
      rw [frames] at kinds
      cases top with
      | module | rule | action | hole => cases kinds
      | combo x =>
          have completes := History.completes_of_given frames given
          obtain ⟨first, rounds, _, course, _, runs⟩ :=
            (combo_execution _).2.2 _ _ x below 10 _ (.startMain courier) completes
          refine ⟨x, below, completes, first, rounds, course, ?_, runs⟩
          rintro rfl
          cases runs.gathered

end CognitiveAgent
