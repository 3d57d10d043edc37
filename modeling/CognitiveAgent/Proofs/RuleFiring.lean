import CognitiveAgent.Proofs.Rounds

/-!
Firing a rule. In its first turn a rule asks once whether its condition holds, and the answers tell
which combos it may fire. It pushes them one by one, hears what each has come to, and ends with the
first that stops it or with the last. Main statement: a rule that completes has fired just these
combos, whatever they have come to, and its result is made up of theirs.
-/

set_option autoImplicit false

namespace CognitiveAgent

variable {σ ω : Type}

/-! ### Evaluations and answers -/

def inquiries (seen : List Occurrence) : List Occurrence := seen.filter (·.isEvaluation)

private theorem inquiries_append (seen more : List Occurrence) :
    inquiries (seen ++ more) = inquiries seen ++ inquiries more := List.filter_append ..

private theorem inquiries_of_quiet {seen : List Occurrence} (quiet : ∀ o ∈ seen, o.Quiet) :
    inquiries seen = [] := by
  apply List.filter_eq_nil_iff.mpr
  intro o member
  rw [(quiet o member).evaluation]
  exact Bool.false_ne_true

/-- Which bindings a rule may be fired with after an evaluation: those that an answer makes of the
incoming ones, in the order of the answers, if the condition holds; for a listall rule just one. -/
structure Rule.Offers (rule : Rule) (e : Evaluation) (incoming : Substitution) : Prop where
  answers : (∀ name, rule.kind ≠ .listallDo name) →
    (rule.instantiations e incoming).map (·.substitution) =
      if e.holds then e.answers.filterMap incoming.combine else []
  collected : ∀ name, rule.kind = .listallDo name →
    (rule.instantiations e incoming).map (·.substitution) =
      [e.collect rule.condition name incoming]

theorem Evaluation.map_substitution (e : Evaluation) (incoming : Substitution) :
    (e.instantiations incoming).map (·.substitution) =
      e.answers.filterMap incoming.combine := by
  unfold Evaluation.instantiations Evaluation.answers
  rw [List.map_flatMap, List.filterMap_flatMap]
  congr 1
  funext group
  rw [List.map_filterMap]
  congr 1
  funext answer
  cases incoming.combine answer with
  | none => rfl
  | some bindings => rfl

theorem Rule.offers (rule : Rule) (e : Evaluation) (incoming : Substitution) :
    rule.Offers e incoming := by
  constructor
  · intro plain
    unfold Rule.instantiations
    cases kind : rule.kind with
    | listallDo name => exact absurd kind (plain name)
    | ifThen | forallDo =>
        cases e.holds with
        | true => exact e.map_substitution incoming
        | false => rfl
  · intro name kind
    unfold Rule.instantiations
    rw [kind]
    rfl

namespace RuleFrame

variable (f : RuleFrame)

def comboOf (option : Instantiation) : Frame :=
  .combo { combo := f.rule.combo, substitution := option.substitution,
           focus := option.focus, order := f.order }

def Stops (result : RunResult) : Prop :=
  result.status ≠ .running ∨ f.rule.kind = .ifThen ∧ result.performedAction = true

private theorem endsWith_iff (result : RunResult) : f.endsWith result = true ↔ f.Stops result := by
  simp only [endsWith, RunResult.isRunning, Stops, Bool.or_eq_true, Bool.not_eq_true',
    Bool.and_eq_true, beq_iff_eq, beq_eq_false_iff_ne, ne_eq]

/-- In the first of its turns the rule has its condition evaluated, and never again. What it may
fire is arranged in this order. -/
structure Evaluates (e : Evaluation) (order : List Instantiation)
    (turns : List (List Occurrence)) : Prop where
  once : ∃ first others, turns = first :: others ∧
    inquiries first = [.exchange (.evaluate f.rule.condition f.substitution) (.ok e)] ∧
    ∀ seen ∈ others, inquiries seen = []
  arranged : order.Perm (f.rule.instantiations e f.substitution)
  inOrder : f.order.shufflesInstantiations = false →
    order = f.rule.instantiations e f.substitution

/-- The course of a rule that completes: the combos that it has fired are the first ones in the
order, all but the last of them have not stopped it, and the last has, unless it was the last in the
order as well. -/
structure Fires (e : Evaluation) (order : List Instantiation) (rounds : List Round)
    (last : List Occurrence) (r : RunResult) : Prop where
  evaluates : f.Evaluates e order (rounds.map (·.seen) ++ [last])
  fired : rounds.map (·.child) <+: order.map f.comboOf
  goesOn : ∀ round ∈ rounds.dropLast, ¬ f.Stops round.result
  stops : rounds.length = order.length ∨
    ∃ round, rounds.getLast? = some round ∧ f.Stops round.result
  gathered : r = Round.gathered rounds

structure Under (e : Evaluation) (order : List Instantiation) (earlier : List Round) (final : Round)
    (rest : List Instantiation) : Prop where
  evaluates : f.Evaluates e order ((earlier ++ [final]).map (·.seen))
  pushed : order.map f.comboOf = (earlier ++ [final]).map (·.child) ++ rest.map f.comboOf
  goesOn : ∀ round ∈ earlier, ¬ f.Stops round.result

def waiting (rest : List Instantiation) (gathered : RunResult) : RuleFrame :=
  { f with pending := some rest, result := gathered }

inductive Next (gathered : RunResult) : List Instantiation → RuleFrame → Outcome → Prop where
  | ends : Next gathered [] (f.waiting [] gathered) (.done gathered)
  | fires (option : Instantiation) (rest : List Instantiation) :
      Next gathered (option :: rest) (f.waiting rest gathered) (.yield [f.comboOf option])

variable {f} {e : Evaluation} {order : List Instantiation}

private theorem Next.of_waiting {rest options : List Instantiation} {before gathered : RunResult}
    {later : RuleFrame} {outcome : Outcome}
    (next : (f.waiting rest before).Next gathered options later outcome) :
    f.Next gathered options later outcome := by
  cases next with
  | ends => exact .ends
  | fires option rest => exact .fires option rest

theorem Evaluates.later {turns : List (List Occurrence)} {seen : List Occurrence}
    (evaluates : f.Evaluates e order turns) (nothing : inquiries seen = []) :
    f.Evaluates e order (turns ++ [seen]) := by
  obtain ⟨first, others, rfl, asked, never⟩ := evaluates.once
  refine ⟨⟨first, others ++ [seen], rfl, asked, fun turn member => ?_⟩, evaluates.arranged,
    evaluates.inOrder⟩
  rcases List.mem_append.mp member with earlier | last
  · exact never turn earlier
  · rw [List.mem_singleton.mp last]
    exact nothing

theorem Under.next {earlier : List Round} {final : Round} {option : Instantiation}
    {rest : List Instantiation} {seen : List Occurrence}
    (under : f.Under e order earlier final (option :: rest)) (nothing : inquiries seen = [])
    (goesOn : ¬ f.Stops final.result) (result : RunResult) :
    f.Under e order (earlier ++ [final]) ⟨seen, f.comboOf option, result⟩ rest := by
  constructor
  · rw [List.map_append]
    exact under.evaluates.later nothing
  · simp only [under.pushed, List.map_append, List.map_cons, List.map_nil, List.append_assoc,
      List.cons_append, List.nil_append]
  · intro round member
    rcases List.mem_append.mp member with inside | last
    · exact under.goesOn round inside
    · rw [List.mem_singleton.mp last]
      exact goesOn

end RuleFrame

/-! ### One turn -/

namespace Setting

variable (S : Setting σ ω) {f : RuleFrame}

private theorem fire_logs (f : RuleFrame) (options : List Instantiation) :
    (S.traced.fire f options).Logs fun left seen =>
      inquiries seen = [] ∧ f.Next f.result options left.1 left.2 := by
  cases options with
  | nil => exact Exec.logs_pure ⟨rfl, .ends⟩
  | cons option rest =>
      apply Exec.Logs.bind (S.emit_quiet _ _ _ _ _)
      intro _ seen quiet
      apply Exec.logs_pure
      rw [List.append_nil]
      exact ⟨inquiries_of_quiet quiet, .fires option rest⟩

private theorem instantiate_logs (rule : Rule) (incoming : Substitution) :
    (S.traced.instantiate rule incoming).Logs fun found seen =>
      (∃ failure, found = .error failure) ∨
      ∃ e, found = .ok (rule.instantiations e incoming) ∧
        inquiries seen = [.exchange (.evaluate rule.condition incoming) (.ok e)] := by
  unfold instantiate
  apply Exec.Logs.bind (S.emit_quiet _ _ _ _ _)
  intro _ seen quiet
  apply S.ask_bind
  intro answer
  cases answer with
  | error fault => exact Exec.logs_pure (.inl ⟨_, rfl⟩)
  | ok e =>
      apply Exec.logs_pure
      refine .inr ⟨e, rfl, ?_⟩
      rw [inquiries_append, inquiries_of_quiet quiet]
      rfl

private theorem arrange_logs (order : RuleOrder) (options : List Instantiation) :
    (arrange order options : Exec σ (List Occurrence) _).Logs fun arranged seen =>
      seen = [] ∧ arranged.Perm options ∧
        (order.shufflesInstantiations = false → arranged = options) := by
  unfold arrange
  split
  · rename_i shuffles
    apply (shuffle_logs options).mono
    rintro arranged seen ⟨nothing, random, rfl⟩
    refine ⟨nothing, random.shuffle_perm options, fun fixed => ?_⟩
    rw [fixed] at shuffles
    cases shuffles
  · exact Exec.logs_pure ⟨rfl, .refl options, fun _ => rfl⟩

private theorem resumeRule_first (fresh : f.pending = none) (previous : Option RunResult) :
    (S.traced.resumeRule f previous).Logs fun left seen =>
      (∃ failure, left.2 = .failed failure) ∨
      ∃ e order, f.Evaluates e order [seen] ∧ f.Next f.result order left.1 left.2 := by
  unfold resumeRule
  rw [fresh]
  apply (S.instantiate_logs f.rule f.substitution).bind
  rintro _ asked (⟨failure, rfl⟩ | ⟨e, rfl, evaluated⟩)
  · exact Exec.logs_pure (.inl ⟨failure, rfl⟩)
  · apply (arrange_logs f.order _).bind
    rintro order _ ⟨rfl, arranged, inOrder⟩
    apply (S.fire_logs f order).mono
    rintro left more ⟨nothing, next⟩
    refine .inr ⟨e, order, ⟨⟨_, [], rfl, ?_, fun _ => List.not_mem_nil.elim⟩, arranged, inOrder⟩,
      next⟩
    rw [inquiries_append, inquiries_append, evaluated, nothing]
    rfl

private theorem resumeRule_later (f : RuleFrame) (rest : List Instantiation)
    (gathered result : RunResult) :
    (S.traced.resumeRule (f.waiting rest gathered) (some result)).Logs fun left seen =>
      inquiries seen = [] ∧
      (f.Stops result ∧ left.2 = .done (gathered.merge result) ∨
        ¬ f.Stops result ∧ f.Next (gathered.merge result) rest left.1 left.2) := by
  change (if f.endsWith result then
      pure (f.waiting rest (gathered.merge result), Outcome.done (gathered.merge result))
    else S.traced.fire (f.waiting rest (gathered.merge result)) rest).Logs _
  split
  · rename_i ends
    exact Exec.logs_pure ⟨rfl, .inl ⟨(f.endsWith_iff result).mp ends, rfl⟩⟩
  · rename_i goesOn
    apply (S.fire_logs _ rest).mono
    rintro left seen ⟨nothing, next⟩
    exact ⟨nothing, .inr ⟨fun stops => goesOn ((f.endsWith_iff result).mpr stops),
      next.of_waiting⟩⟩

variable {S} {later : Frame} {outcome : Outcome} {seen : List Occurrence}

private theorem Takes.of_rule {previous : Option RunResult}
    {holds : RuleFrame × Outcome → List Occurrence → Prop}
    (takes : S.Takes (.rule f) previous later outcome seen)
    (logs : (S.traced.resumeRule f previous).Logs holds) :
    ∃ g, later = .rule g ∧ holds (g, outcome) seen := by
  have resumed : (S.traced.resumeWith (.rule f) previous).Logs fun left seen =>
      ∃ g, left.1 = .rule g ∧ holds (g, left.2) seen := by
    apply logs.bind
    intro left noted here
    apply Exec.logs_pure
    rw [List.append_nil]
    exact ⟨left.1, rfl, here⟩
  exact takes.occurs resumed

/-! ### One round after the other -/

/-- Between two turns the rule waits with the options that are left, and with what it has gathered
of all rounds but the last. -/
theorem Rounds.of_rule {rounds : List Round} {x : Frame} (fresh : f.pending = none)
    (start : f.result = .start) (course : S.Rounds (.rule f) rounds x) :
    (rounds = [] ∧ x = .rule f) ∨
    ∃ e order earlier final rest, rounds = earlier ++ [final] ∧
      f.Under e order earlier final rest ∧
      x = .rule (f.waiting rest (Round.gathered earlier)) := by
  induction course with
  | opens => exact .inl ⟨rfl, rfl⟩
  | @next rounds x later child seen before turn result ih =>
      right
      rcases ih with ⟨rfl, rfl⟩ | ⟨e, order, earlier, final, rest, rfl, under, rfl⟩
      · obtain ⟨g, rfl, ⟨_, impossible⟩ | ⟨e, order, evaluates, next⟩⟩ :=
          turn.of_rule (S.resumeRule_first fresh _)
        · cases impossible
        · cases next with
          | fires option rest =>
              refine ⟨e, _, [], ⟨seen, _, result⟩, rest, rfl, ⟨evaluates, rfl, ?_⟩, ?_⟩
              · exact fun _ => List.not_mem_nil.elim
              · rw [start]
                rfl
      · rw [Round.heard_append] at turn
        obtain ⟨g, rfl, nothing, ⟨_, impossible⟩ | ⟨goesOn, next⟩⟩ :=
          turn.of_rule (S.resumeRule_later f rest _ final.result)
        · cases impossible
        · cases next with
          | fires option rest =>
              refine ⟨e, order, earlier ++ [final], ⟨seen, _, result⟩, rest, rfl,
                under.next nothing goesOn result, ?_⟩
              rw [Round.gathered_append]
              rfl

/-- A rule that is done has fired all that it may, or it has been stopped. -/
theorem Finishes.of_rule {rounds : List Round} {last : List Occurrence} {r : RunResult}
    (fresh : f.pending = none) (start : f.result = .start)
    (finishes : S.Finishes (.rule f) rounds last r) : ∃ e order, f.Fires e order rounds last r := by
  obtain ⟨x, later, course, takes⟩ := finishes
  rcases course.of_rule fresh start with ⟨rfl, rfl⟩ |
    ⟨e, order, earlier, final, rest, rfl, under, rfl⟩
  · obtain ⟨g, _, ⟨_, impossible⟩ | ⟨e, order, evaluates, next⟩⟩ :=
      takes.of_rule (S.resumeRule_first fresh _)
    · cases impossible
    · cases next
      exact ⟨e, [], evaluates, List.nil_prefix, fun _ => List.not_mem_nil.elim, .inl rfl, start⟩
  · rw [Round.heard_append] at takes
    obtain ⟨g, _, nothing, course⟩ := takes.of_rule (S.resumeRule_later f rest _ final.result)
    have fires (stops : (earlier ++ [final]).length = order.length ∨ f.Stops final.result) :
        f.Fires e order (earlier ++ [final]) last
          ((Round.gathered earlier).merge final.result) := by
      refine ⟨under.evaluates.later nothing, ⟨_, under.pushed.symm⟩, ?_, ?_,
        (Round.gathered_append earlier final).symm⟩
      · rw [List.dropLast_concat]
        exact under.goesOn
      · apply stops.imp_right
        intro stops
        exact ⟨final, List.getLast?_concat, stops⟩
    rcases course with ⟨stops, done⟩ | ⟨goesOn, next⟩
    · cases done
      exact ⟨e, order, fires (.inr stops)⟩
    · cases next
      have all := congrArg List.length under.pushed
      rw [List.map_nil, List.append_nil, List.length_map, List.length_map] at all
      exact ⟨e, order, fires (.inl all.symm)⟩

end Setting

/-- A rule that completes without failure has its condition evaluated once, in its first turn. It
may fire one combo for each answer that fits its bindings, in the order of the answers or shuffled,
or just one if it is a listall rule, or none if the condition does not hold. It fires them one after
the other up to the first that asks to stop or, for an if rule, performs an action, and its result
is made up of theirs. This holds whatever the world answers and whatever the combos come to, and so
of every rule that completes while a module runs, with the combos that have run there. -/
theorem rule_firing (S : Setting σ ω) :
    (∀ (rule : Rule) (e : Evaluation) (incoming : Substitution), rule.Offers e incoming) ∧
    (∀ (f : RuleFrame) (rounds : List Round) (last : List Occurrence) (r : RunResult),
      f.pending = none → f.result = .start → S.Finishes (.rule f) rounds last r →
        ∃ e order, f.Fires e order rounds last r) ∧
    ∀ (g : ModuleFrame) (situation : Situation σ ω) (x : RuleFrame) (below : List Frame) (n : Nat)
      (r : RunResult), g.Fresh →
      (History.ofModule S g situation).Completes n (.rule x) below (.ok r) →
      let H := History.ofModule S g situation
      let f := { x with pending := none, result := .start }
      ∃ first rounds e order, H.Lifetime (.rule f) below first n ∧
        H.Rounds below first rounds n ∧ S.Finishes (.rule f) rounds (H.occurrences n) r ∧
        f.Fires e order rounds (H.occurrences n) r := by
  refine ⟨Rule.offers, fun f rounds last r fresh start => Setting.Finishes.of_rule fresh start, ?_⟩
  intro g situation x below n r fresh completes H f
  have origin : g.origin = g := by cases fresh <;> rfl
  have routed : H.setting.Routed H.start := .ready (.bottom g) fresh.waits
  have alone : H.start.frames = [.module g] := rfl
  have here : (Frame.rule x :: below) <:+ (H.stack n).frames := ⟨[], completes.frames.symm⟩
  obtain ⟨first, lifetime⟩ :=
    History.exists_lifetime alone (congrArg Frame.module origin) here Frame.noConfusion
  obtain ⟨rounds, course, finishes⟩ :=
    completes.exists_rounds routed rfl (Nat.le_refl 1) lifetime rfl
  obtain ⟨e, order, fires⟩ := finishes.of_rule rfl rfl
  exact ⟨first, rounds, e, order, lifetime, course, finishes, fires⟩

def deliverer : Module :=
  { Module.ofName "deliver" with
    rules := [.ofKind .forallDo ⟨[⟨true, .belief, .compound "parcel" [.var "X"]⟩]⟩
      [.perform "deliver" [.var "X"]]]
    beliefs := [.compound "parcel" [.atom "letter"], .compound "parcel" [.atom "box"]] }

def delivering : History Simulation.World Simulation.Trace :=
  .ofModule (Simulation.setting ⟨[], none, some deliverer, none, none⟩ .linear false)
    (.startMain deliverer) (Simulation.situation {} ⟨Vector.replicate 8 0, 0⟩)

/-- The rule takes its last turn as turn 9, after both parcels have been delivered. -/
theorem rule_firing_of_deliverer :
    ∃ (x : RuleFrame) (below : List Frame),
      delivering.Completes 9 (.rule x) below (.ok .realAction) ∧
      ∃ first rounds e order, delivering.Rounds below first rounds 9 ∧ rounds ≠ [] ∧
        { x with pending := none, result := .start : RuleFrame }.Fires e order rounds
          (delivering.occurrences 9) .realAction := by
  have kinds : (delivering.stack 9).frames.map Frame.kind = [.rule, .module] := by decide +kernel
  have given : (delivering.stack 10).given = some .realAction := by decide +kernel
  cases frames : (delivering.stack 9).frames with
  | nil =>
      rw [frames] at kinds
      cases kinds
  | cons top below =>
      rw [frames] at kinds
      cases top with
      | module | combo | action | hole => cases kinds
      | rule x =>
          have completes := History.completes_of_given frames given
          obtain ⟨first, rounds, e, order, _, course, _, fires⟩ :=
            (rule_firing _).2.2 _ _ x below 9 _ (.startMain deliverer) completes
          refine ⟨x, below, completes, first, rounds, e, order, course, ?_, fires⟩
          rintro rfl
          cases fires.gathered

end CognitiveAgent
