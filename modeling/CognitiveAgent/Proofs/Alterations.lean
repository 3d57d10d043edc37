import CognitiveAgent.Proofs.PassTurns

/-!
What is asked of the mental state in one resumption, as far as it alters it. A module furnishes it
when it is entered and closes its focus when it is left. A plain action asks for its own update or
for its effects. Nothing else alters the mental state.
-/

set_option autoImplicit false

namespace CognitiveAgent

variable {σ ω α β : Type}

def Request.alters : Request → Bool
  | .insert _ | .delete _ | .adopt _ | .drop _ | .enterFocus .. | .exitFocus _ => true
  | .evaluate .. | .hasGoals | .perform _ | .reward | .choose .. | .learn .. | .plan ..
  | .stopSignal => false

namespace Occurrence

def request? : Occurrence → Option Request
  | .exchange request _ => some request
  | .event _ | .logged _ => none

def Inert (o : Occurrence) : Prop := ∀ request, o.request? = some request → request.alters = false

private theorem inert_exchange {request : Request} (idle : request.alters = false)
    (answer : request.Answer) : Inert (.exchange request answer) := by
  intro asked same
  cases same
  exact idle

private theorem inert_event (e : Event) : Inert (.event e) := by
  intro asked impossible
  cases impossible

private theorem inert_logged (term : Term) : Inert (.logged term) := by
  intro asked impossible
  cases impossible

end Occurrence

def requests (seen : List Occurrence) : List Request := seen.filterMap Occurrence.request?

def alterations (seen : List Occurrence) : List Request := (requests seen).filter Request.alters

@[simp]
theorem requests_nil : requests [] = [] := rfl

@[simp]
theorem requests_append (seen more : List Occurrence) :
    requests (seen ++ more) = requests seen ++ requests more := List.filterMap_append

@[simp]
theorem requests_exchange (request : Request) (answer : request.Answer) (seen : List Occurrence) :
    requests (.exchange request answer :: seen) = request :: requests seen := rfl

@[simp]
theorem requests_event (e : Event) (seen : List Occurrence) :
    requests (.event e :: seen) = requests seen := rfl

@[simp]
theorem alterations_nil : alterations [] = [] := rfl

@[simp]
theorem alterations_append (seen more : List Occurrence) :
    alterations (seen ++ more) = alterations seen ++ alterations more := by
  simp [alterations]

private theorem alterations_of_inert {seen : List Occurrence} (inert : ∀ o ∈ seen, o.Inert) :
    alterations seen = [] := by
  rw [alterations, List.filter_eq_nil_iff]
  intro request member
  obtain ⟨o, occurs, asks⟩ := List.mem_filterMap.mp member
  rw [inert o occurs request asks]
  exact Bool.false_ne_true

private theorem alterations_of_requests {seen : List Occurrence} {asked : List Request}
    (same : requests seen = asked) (alter : ∀ request ∈ asked, request.alters = true) :
    alterations seen = asked := by
  rw [alterations, same, List.filter_eq_self]
  exact alter

def Module.closing (m : Module) : List Request :=
  if m.focus = .none then [] else [.exitFocus m.name]

namespace Activation

def furnishing (a : Activation) : List Request :=
  (if a.module.focus = .none then []
    else [.enterFocus a.module.name a.module.focus a.focus]) ++
  a.module.beliefs.map (fun belief => .insert (belief.apply a.substitution)) ++
  a.module.goals.map (fun goal => .adopt (goal.apply a.substitution))

end Activation

/-- What has been asked for by the time that a module comes to this outcome, its entry apart. -/
def Outcome.Closes (outcome : Outcome) (m : Module) (asked : List Request) : Prop :=
  match outcome with
  | .yield _ => asked = []
  | .done _ => asked = m.closing
  | .failed _ => asked <+: m.closing

namespace Setting

variable (S : Setting σ ω) {m : Module} {a : Activation}

/-! ### What alters nothing -/

private theorem emit_inert (channel : Channel) (subject : String) (source : Option Location)
    (template : String) (arguments : List String) :
    (S.traced.emit channel subject source template arguments).Only Occurrence.Inert :=
  S.note_only (Occurrence.inert_event _)

private theorem emit_requests (channel : Channel) (subject : String) (source : Option Location)
    (template : String) (arguments : List String) :
    (S.traced.emit channel subject source template arguments).Logs fun _ seen =>
      requests seen = [] :=
  S.note_logs rfl

private theorem ask_inert {request : Request} (idle : request.alters = false) :
    (S.traced.ask request).Only Occurrence.Inert :=
  S.ask_only fun answer => Occurrence.inert_exchange idle answer

private theorem mustStop_inert (a : Activation) : (S.traced.mustStop a).Only Occurrence.Inert := by
  unfold mustStop
  split
  · exact S.ask_inert rfl
  · exact Exec.only_pure _

private theorem exitHolds_inert (a : Activation) :
    (S.traced.exitHolds a).Only Occurrence.Inert := by
  unfold exitHolds
  cases a.module.exit with
  | noGoals => exact (S.ask_inert rfl).bind fun _ => Exec.only_pure _
  | noAction | always | never => exact Exec.only_pure _

private theorem nextPass_inert (a : Activation) : (S.traced.nextPass a).Only Occurrence.Inert := by
  unfold nextPass
  split
  · exact (S.emit_inert _ _ _ _ _).bind fun _ => Exec.only_pure _
  · exact Exec.only_pure _

private theorem shuffle_inert (items : List α) :
    (Situation.shuffle items : Exec σ (List Occurrence) (List α)).Only Occurrence.Inert := by
  refine (shuffle_logs items).mono fun _ seen noted o member => ?_
  rw [noted.1] at member
  cases member

private theorem openPass_inert (a : Activation) (state : PassState) :
    (openPass a state : Exec σ (List Occurrence) PassState).Only Occurrence.Inert := by
  refine (openPass_logs a state).mono fun _ seen noted o member => ?_
  rw [noted.1] at member
  cases member

private theorem instantiate_inert (rule : Rule) (incoming : Substitution) :
    (S.traced.instantiate rule incoming).Only Occurrence.Inert := by
  refine (S.emit_inert _ _ _ _ _).bind fun _ => ?_
  refine (S.ask_inert rfl).bind fun answer => ?_
  cases answer <;> exact Exec.only_pure _

private theorem candidatesOf_inert (incoming : Substitution) (rules : List (Rule × Nat)) :
    (S.traced.candidatesOf incoming rules).Only Occurrence.Inert := by
  induction rules with
  | nil => exact Exec.only_pure _
  | cons first rest ih =>
      refine (S.instantiate_inert first.1 incoming).bind fun options => ?_
      cases options with
      | error failure => exact Exec.only_pure _
      | ok options =>
          refine ih.bind fun others => ?_
          cases others <;> exact Exec.only_pure _

private theorem reportReward_inert (a : Activation) :
    (S.traced.reportReward a).Only Occurrence.Inert := by
  have rewarded : S.traced.rewardNow.Only Occurrence.Inert := by
    refine (S.ask_inert rfl).bind fun reward => ?_
    cases reward with
    | some reward => exact Exec.only_pure _
    | none =>
        refine (S.ask_inert rfl).bind fun holds => ?_
        cases holds <;> exact Exec.only_pure _
  refine rewarded.bind fun reward => ?_
  exact (S.ask_inert rfl).bind fun _ => S.emit_inert _ _ _ _ _

private theorem fire_inert (f : RuleFrame) (options : List Instantiation) :
    (S.traced.fire f options).Only Occurrence.Inert := by
  cases options with
  | nil => exact Exec.only_pure _
  | cons option rest => exact (S.emit_inert _ _ _ _ _).bind fun _ => Exec.only_pure _

private theorem resumeRule_inert (f : RuleFrame) (previous : Option RunResult) :
    (S.traced.resumeRule f previous).Only Occurrence.Inert := by
  unfold resumeRule
  split
  · refine (S.instantiate_inert _ _).bind fun options => ?_
    cases options with
    | error failure => exact Exec.only_pure _
    | ok options =>
        refine Exec.Only.bind ?_ fun arranged => S.fire_inert f arranged
        unfold arrange
        split
        · exact shuffle_inert _
        · exact Exec.only_pure _
  · exact S.fire_inert f _
  · dsimp only
    split
    · exact Exec.only_pure _
    · exact S.fire_inert _ _

/-! ### Entering and leaving a module -/

/-- One request after the other is made, up to the first that is refused. -/
def Asks (planned : List Request) (answer : Except MentalFault Unit) (seen : List Occurrence) :
    Prop :=
  requests seen <+: planned ∧ (answer = .ok () → requests seen = planned)

private theorem insertAll_asks (beliefs : List Term) :
    (S.traced.insertAll beliefs).Logs (Asks (beliefs.map .insert)) := by
  induction beliefs with
  | nil => exact Exec.logs_pure ⟨List.prefix_rfl, fun _ => rfl⟩
  | cons belief rest ih =>
      refine S.ask_bind fun answer => ?_
      cases answer with
      | error fault =>
          refine Exec.logs_pure ⟨⟨rest.map .insert, rfl⟩, fun impossible => ?_⟩
          cases impossible
      | ok update =>
          refine ih.mono fun _ seen asks => ?_
          exact ⟨(List.prefix_cons_inj _).mpr asks.1, fun ok => congrArg _ (asks.2 ok)⟩

private theorem adoptAll_asks (goals : List Term) :
    (S.traced.adoptAll goals).Logs (Asks (goals.map .adopt)) := by
  induction goals with
  | nil => exact Exec.logs_pure ⟨List.prefix_rfl, fun _ => rfl⟩
  | cons goal rest ih =>
      refine S.ask_bind fun answer => ?_
      cases answer with
      | error fault =>
          refine Exec.logs_pure ⟨⟨rest.map .adopt, rfl⟩, fun impossible => ?_⟩
          cases impossible
      | ok update =>
          refine ih.mono fun _ seen asks => ?_
          exact ⟨(List.prefix_cons_inj _).mpr asks.1, fun ok => congrArg _ (asks.2 ok)⟩

private theorem enterFocus_asks (m : Module) (goal : Option Term) :
    (S.traced.enterFocus m goal).Logs
      (Asks (if m.focus = .none then [] else [.enterFocus m.name m.focus goal])) := by
  unfold enterFocus
  split
  · exact Exec.logs_pure ⟨List.prefix_rfl, fun _ => rfl⟩
  · exact S.ask_logs fun answer => ⟨List.prefix_rfl, fun _ => rfl⟩

private theorem exitFocus_asks (m : Module) : (S.traced.exitFocus m).Logs (Asks m.closing) := by
  unfold exitFocus Module.closing
  split
  · exact Exec.logs_pure ⟨List.prefix_rfl, fun _ => rfl⟩
  · exact S.ask_logs fun answer => ⟨List.prefix_rfl, fun _ => rfl⟩

theorem Asks.bind {planned further : List Request}
    {first rest : Exec σ (List Occurrence) (Except MentalFault Unit)}
    (before : first.Logs (Asks planned)) (after : rest.Logs (Asks further)) :
    (do
      match ← first with
      | .error fault => return .error fault
      | .ok () => rest : Exec σ (List Occurrence) (Except MentalFault Unit)).Logs
        (Asks (planned ++ further)) := by
  refine before.bind fun answer seen asks => ?_
  -- The second part is asked for only when the first has been granted in full.
  cases answer with
  | error fault =>
      refine Exec.logs_pure ⟨?_, fun impossible => by cases impossible⟩
      rw [List.append_nil]
      exact asks.1.trans (List.prefix_append _ _)
  | ok granted =>
      have made := asks.2 rfl
      refine after.mono fun last more alsoAsks => ?_
      rw [Asks, requests_append, made]
      exact ⟨(List.prefix_append_right_inj _).mpr alsoAsks.1,
        fun ok => congrArg _ (alsoAsks.2 ok)⟩

private theorem furnish_asks (a : Activation) : (S.traced.furnish a).Logs (Asks a.furnishing) := by
  have furnished := Asks.bind (S.enterFocus_asks a.module a.focus)
    (Asks.bind (S.insertAll_asks (a.module.beliefs.map (·.apply a.substitution)))
      (S.adoptAll_asks (a.module.goals.map (·.apply a.substitution))))
  rw [List.map_map, List.map_map, ← List.append_assoc] at furnished
  exact furnished

/-- The entry of a module asks for what furnishes it, and for nothing else. -/
theorem prepare_asks (a : Activation) :
    (S.traced.prepare a).Logs fun left seen =>
      requests seen <+: a.furnishing ∧ (left.2 = none → requests seen = a.furnishing) := by
  unfold prepare
  refine (S.furnish_asks _).bind fun answer seen asks => ?_
  cases answer with
  | error fault =>
      refine Exec.logs_pure ⟨?_, fun impossible => by cases impossible⟩
      rw [List.append_nil]
      exact asks.1
  | ok granted =>
      have entering : (Situation.enter a.module.name : Exec σ (List Occurrence) Unit).Logs
          fun _ more => more = [] := fun s => ⟨[], (List.append_nil _).symm, rfl⟩
      refine entering.bind fun _ more nothing => ?_
      subst nothing
      refine (S.emit_requests _ _ _ _ _).bind fun _ noted quiet => ?_
      have made : requests seen = a.furnishing := asks.2 rfl
      refine Exec.logs_pure ?_
      simp only [requests_append, quiet, List.append_nil, List.nil_append, made]
      exact ⟨List.prefix_rfl, fun _ => trivial⟩

private theorem finish_closes (same : a.module = m) :
    (S.traced.finish a).Logs fun left seen => left.2.Closes m (alterations seen) := by
  unfold finish
  refine Exec.Logs.bind (S.ask_inert rfl) fun stopped asked inert => ?_
  dsimp only
  -- A stop changes the result of the module, and the module is left all the same.
  have kept : (if stopped = true then { a with result := a.result.merge (.stopped .hardStop) }
      else a).module = m := by
    rw [← same]
    cases stopped <;> rfl
  rw [kept]
  refine (S.exitFocus_asks m).bind fun answer seen asks => ?_
  have closing : ∀ request ∈ m.closing, request.alters = true := by
    intro request member
    unfold Module.closing at member
    split at member
    · cases member
    · rw [List.mem_singleton.mp member]
      rfl
  cases answer with
  | error fault =>
      refine Exec.logs_pure ?_
      rw [List.append_nil, alterations_append, alterations_of_inert inert, List.nil_append,
        alterations_of_requests rfl fun request member => closing request (asks.1.subset member)]
      exact asks.1
  | ok granted =>
      refine Exec.Logs.bind (leave_only _ Occurrence.Inert) fun _ left alsoInert => ?_
      refine Exec.Logs.bind (S.emit_inert _ _ _ _ _) fun _ more stillInert => ?_
      refine Exec.logs_pure ?_
      simp only [alterations_append, alterations_of_inert inert, alterations_of_inert alsoInert,
        alterations_of_inert stillInert, List.append_nil, List.nil_append]
      exact alterations_of_requests (asks.2 rfl) closing

/-! ### Strategies -/

/-- What has altered nothing may come first. -/
theorem closes_after {first : Exec σ (List Occurrence) α} {rest : α → Exec σ (List Occurrence) β}
    {outcome : β → Outcome} (inert : first.Only Occurrence.Inert)
    (closes : ∀ value, (rest value).Logs fun left seen =>
      (outcome left).Closes m (alterations seen)) :
    (first >>= rest).Logs fun left seen => (outcome left).Closes m (alterations seen) := by
  refine Exec.Logs.bind inert fun value seen silent => ?_
  refine (closes value).mono fun left more closed => ?_
  rw [alterations_append, alterations_of_inert silent]
  exact closed

private theorem leave_closes {τ : Type} (same : a.module = m) (state : τ) :
    (do
      let (left, outcome) ← S.traced.finish a
      return (left, state, outcome) :
        Exec σ (List Occurrence) (Activation × τ × Outcome)).Logs fun left seen =>
          left.2.2.Closes m (alterations seen) :=
  (S.finish_closes same).map

private theorem stop_closes {τ : Type} (same : a.module = m) (state : τ)
    {proceed : Exec σ (List Occurrence) (Activation × τ × Outcome)}
    (proceeds : proceed.Logs fun left seen => left.2.2.Closes m (alterations seen)) :
    (do
      if ← S.traced.mustStop a then
        let (left, outcome) ← S.traced.finish a
        return (left, state, outcome)
      else proceed).Logs fun left seen => left.2.2.Closes m (alterations seen) := by
  refine closes_after (S.mustStop_inert a) fun stop => ?_
  cases stop with
  | true => exact S.leave_closes same state
  | false => exact proceeds

private theorem nextPass_module (same : a.module = m) :
    (S.traced.nextPass a).Logs fun later seen =>
      later.module = m ∧ alterations seen = [] := by
  have returns : (S.traced.nextPass a).Returns fun later => later.module = m := by
    unfold nextPass
    split
    · exact (Exec.returns_any _).bind fun _ _ => Exec.returns_pure same
    · exact Exec.returns_pure same
  refine ((S.nextPass_inert a).and_returns returns).mono fun later seen noted => ?_
  exact ⟨noted.2, alterations_of_inert noted.1⟩

private theorem endPass_closes (same : a.module = m) (state : PassState) :
    (S.traced.endPass a state).Logs fun left seen =>
      match left.2.2 with
      | some outcome => outcome.Closes m (alterations seen)
      | none => left.1.module = m ∧ alterations seen = [] := by
  unfold endPass
  refine Exec.Logs.bind (S.exitHolds_inert a) fun holds judged inert => ?_
  cases holds with
  | true =>
      refine (S.finish_closes same).bind fun left seen closed => Exec.logs_pure ?_
      rw [List.append_nil, alterations_append, alterations_of_inert inert]
      exact closed
  | false =>
      refine (S.nextPass_module same).bind fun later seen next => ?_
      obtain ⟨still, nothing⟩ := next
      have silent : alterations (judged ++ (seen ++ [])) = [] := by
        rw [List.append_nil, alterations_append, alterations_of_inert inert, nothing]
        rfl
      split
      · exact Exec.logs_pure silent
      · exact Exec.logs_pure ⟨still, silent⟩

private theorem tryNext_closes (same : a.module = m) (state : PassState) :
    (S.traced.tryNext a state).Logs fun left seen => left.2.2.Closes m (alterations seen) := by
  unfold tryNext
  refine closes_after (openPass_inert a state) fun opened => ?_
  split
  · exact Exec.logs_pure rfl
  · refine (S.endPass_closes same opened).bind fun left seen closed => ?_
    obtain ⟨later, state, outcome⟩ := left
    refine Exec.logs_pure ?_
    rw [List.append_nil]
    cases outcome with
    | some outcome => exact closed
    | none => exact closed.2

private theorem resumePasses_closes (same : a.module = m) (state : PassState)
    (previous : Option RunResult) :
    (S.traced.resumePasses a state previous).Logs fun left seen =>
      left.2.2.Closes m (alterations seen) := by
  have kept := PassState.absorb_keeps state a previous
  unfold resumePasses
  cases taken : state.absorb a previous with
  | mk now closes =>
      rw [taken] at kept
      have still : now.module = m := kept.module.trans same
      refine S.stop_closes still _ ?_
      split
      · refine (S.endPass_closes still _).bind fun left seen closed => ?_
        obtain ⟨later, state, outcome⟩ := left
        cases outcome with
        | some outcome =>
            refine Exec.logs_pure ?_
            rw [List.append_nil]
            exact closed
        | none =>
            refine (S.tryNext_closes closed.1 state).mono fun left more alsoClosed => ?_
            rw [alterations_append, closed.2]
            exact alsoClosed
      · exact S.tryNext_closes still _

private theorem decide_closes (candidates : List Candidate) :
    (S.traced.decide a candidates).Logs fun left seen =>
      left.2.2.Closes m (alterations seen) := by
  unfold Setting.decide
  refine closes_after (S.ask_inert rfl) fun chosen => ?_
  split
  · exact Exec.logs_pure List.nil_prefix
  · refine closes_after (S.emit_inert _ _ _ _ _) fun _ => ?_
    exact Exec.logs_pure rfl

private theorem pause_closes (same : a.module = m) :
    (S.traced.pause a).Logs fun left seen => left.2.2.Closes m (alterations seen) := by
  unfold pause
  refine closes_after (S.exitHolds_inert a) fun holds => ?_
  cases holds with
  | true => exact S.leave_closes same _
  | false =>
      refine closes_after (S.nextPass_inert a) fun later => ?_
      split <;> exact Exec.logs_pure rfl

private theorem offer_closes (same : a.module = m) :
    (S.traced.offer a).Logs fun left seen => left.2.2.Closes m (alterations seen) := by
  unfold offer
  refine closes_after (S.candidatesOf_inert _ _) fun candidates => ?_
  split
  · exact Exec.logs_pure List.nil_prefix
  · exact S.pause_closes same
  · exact S.decide_closes _

private theorem settle_closes (same : a.module = m) :
    (S.traced.settle a).Logs fun left seen => left.2.2.Closes m (alterations seen) := by
  unfold Setting.settle
  refine closes_after (S.reportReward_inert a) fun _ => ?_
  refine S.stop_closes same _ ?_
  refine closes_after (S.exitHolds_inert a) fun holds => ?_
  cases holds with
  | true => exact S.leave_closes same _
  | false =>
      refine (S.nextPass_module same).bind fun later seen next => ?_
      refine (S.offer_closes next.1).mono fun left more closed => ?_
      rw [alterations_append, next.2]
      exact closed

private theorem resumeChoices_closes (same : a.module = m) (state : ChoiceState)
    (previous : Option RunResult) :
    (S.traced.resumeChoices a state previous).Logs fun left seen =>
      left.2.2.Closes m (alterations seen) := by
  have kept := ChoiceState.absorb_keeps state a previous
  unfold resumeChoices
  cases taken : state.absorb a previous with
  | mk now stage =>
      rw [taken] at kept
      have still : now.module = m := kept.module.trans same
      cases stage with
      | idle => exact S.stop_closes still _ (S.offer_closes still)
      | passed chose =>
          cases chose with
          | false => exact S.stop_closes still _ (S.offer_closes still)
          | true => exact S.settle_closes still
      | acted =>
          refine closes_after (S.mustStop_inert now) fun stop => ?_
          cases stop with
          | true => exact closes_after (S.reportReward_inert now) fun _ => S.leave_closes still _
          | false =>
              dsimp only
              cases pass : S.traced.eventPass now with
              | some frames => exact Exec.logs_pure rfl
              | none => exact S.settle_closes still

private theorem runStep_closes {τ : Type} (state : τ) (step : PlanStep) :
    (do
      return (a, state, ← S.traced.runStep a step) :
        Exec σ (List Occurrence) (Activation × τ × Outcome)).Logs fun left seen =>
          left.2.2.Closes m (alterations seen) := by
  have steps : (S.traced.runStep a step).Logs fun outcome seen =>
      outcome.Closes m (alterations seen) :=
    closes_after (S.emit_inert _ _ _ _ _) fun _ => Exec.logs_pure rfl
  exact steps.map

private theorem replan_closes (state : PlanState) :
    (S.traced.replan a state).Logs fun left seen => left.2.2.Closes m (alterations seen) := by
  unfold replan
  refine closes_after (S.ask_inert rfl) fun answer => ?_
  cases answer with
  | error fault => exact Exec.logs_pure List.nil_prefix
  | ok plan =>
      refine closes_after (S.emit_inert _ _ _ _ _) fun _ => ?_
      dsimp only
      split
      · exact S.runStep_closes _ _
      · exact Exec.logs_pure rfl

private theorem resumePlans_closes (same : a.module = m) (state : PlanState)
    (previous : Option RunResult) :
    (S.traced.resumePlans a state previous).Logs fun left seen =>
      left.2.2.Closes m (alterations seen) := by
  have kept := (PlanState.absorb_keeps state a previous).1
  unfold resumePlans
  cases taken : state.absorb a previous with
  | mk now state =>
      rw [taken] at kept
      have still : now.module = m := kept.module.trans same
      refine S.stop_closes still _ ?_
      split
      · exact S.runStep_closes _ _
      · dsimp only
        split
        · refine closes_after (S.exitHolds_inert now) fun holds => ?_
          cases holds with
          | true => exact S.leave_closes still _
          | false => exact closes_after (S.nextPass_inert now) fun later => S.replan_closes _
        · exact S.replan_closes _

private theorem pursue_closes (a : Activation) (strategy : StrategyState)
    (previous : Option RunResult) :
    (S.traced.pursue a strategy previous).Logs fun left seen =>
      left.2.Closes a.module (alterations seen) := by
  cases strategy with
  | passes state => exact (S.resumePasses_closes rfl state previous).map
  | choices state => exact (S.resumeChoices_closes rfl state previous).map
  | plans state => exact (S.resumePlans_closes rfl state previous).map

/-- What one resumption of a module asks of the mental state: what furnishes it, unless it has been
entered before, then nothing that alters it, and its closing if the module is left. -/
inductive ModuleAsks (g : ModuleFrame) : Outcome → List Occurrence → Prop where
  | refused {failure : Failure} {seen : List Occurrence} (fresh : g.activation.prepared = false)
      (begun : requests seen <+: g.activation.furnishing) : ModuleAsks g (.failed failure) seen
  | pursues {outcome : Outcome} {entry seen : List Occurrence}
      (furnished : requests entry =
        if g.activation.prepared then [] else g.activation.furnishing)
      (closes : outcome.Closes g.activation.module (alterations seen)) :
      ModuleAsks g outcome (entry ++ seen)

private theorem resumeModule_asks (g : ModuleFrame) (previous : Option RunResult) :
    (S.traced.resumeModule g previous).Logs fun left seen => ModuleAsks g left.2 seen := by
  unfold resumeModule
  cases prepared : g.activation.prepared with
  | true =>
      refine (S.pursue_closes g.activation g.strategy previous).mono fun left seen closed => ?_
      have asks : ModuleAsks g left.2 ([] ++ seen) := .pursues (by rw [prepared]; rfl) closed
      exact asks
  | false =>
      refine ((S.prepare_asks g.activation).and_returns (S.traced.prepare_enters g.activation)).bind
        fun entered entry asks => ?_
      obtain ⟨asks, rfl | ⟨failure, failed⟩⟩ := asks
      · refine (S.pursue_closes _ g.strategy previous).mono fun left seen closed => ?_
        refine .pursues ?_ closed
        rw [prepared]
        exact asks.2 rfl
      · obtain ⟨now, outcome⟩ := entered
        change outcome = some failure at failed
        subst failed
        refine Exec.logs_pure ?_
        rw [List.append_nil]
        exact .refused prepared asks.1

end Setting

/-! ### Actions -/

def Effect.term : Effect → Term
  | .insert belief | .delete belief => belief

def Effect.request : Effect → Request
  | .insert belief => .insert belief
  | .delete belief => .delete belief

def MentalAction.request? : MentalAction → Option Request
  | .insert belief => some (.insert belief)
  | .delete belief => some (.delete belief)
  | .adopt goal => some (.adopt goal)
  | .drop goal => some (.drop goal)
  | .exit | .log _ => none

namespace Setting

variable (S : Setting σ ω)

/-- What one resumption of an action asks of the mental state: nothing, or the update of a mental
action that is closed, or effects of a user action whose parameters are closed. -/
inductive ActionAsks (x : ActionFrame) : Outcome → List Request → Prop where
  | nothing (outcome : Outcome) : ActionAsks x outcome []
  | update {outcome : Outcome} {action : MentalAction} {request : Request}
      (mental : x.action = .mental action)
      (closed : (action.apply x.substitution).unbound = [])
      (asked : (action.apply x.substitution).request? = some request) :
      ActionAsks x outcome [request]
  | effects {outcome : Outcome} {action : UserAction} {bindings : Substitution}
      {asked : List Request} (user : x.action = .user action)
      (closed : (action.apply bindings).freeVars = [])
      (begun : asked <+: (action.apply bindings).post.map Effect.request) :
      ActionAsks x outcome asked

private theorem applyEffects_asks (effects : List Effect) :
    (S.traced.applyEffects effects).Logs (Asks (effects.map Effect.request)) := by
  induction effects with
  | nil => exact Exec.logs_pure ⟨List.prefix_rfl, fun _ => rfl⟩
  | cons effect rest ih =>
      cases effect with
      | insert belief | delete belief =>
          refine S.ask_bind fun answer => ?_
          cases answer with
          | error fault =>
              refine Exec.logs_pure ⟨⟨rest.map Effect.request, rfl⟩, fun impossible => ?_⟩
              cases impossible
          | ok update =>
              refine ih.mono fun _ seen asks => ?_
              exact ⟨(List.prefix_cons_inj _).mpr asks.1, fun ok => congrArg _ (asks.2 ok)⟩

theorem carryOut_asks (ground : UserAction) :
    (S.traced.carryOut ground).Logs fun _ seen =>
      alterations seen = [] ∨
        (ground.freeVars = [] ∧ alterations seen <+: ground.post.map Effect.request) := by
  unfold carryOut
  split
  · rename_i closed
    refine Exec.Logs.bind (S.ask_inert rfl) fun answer performed inert => ?_
    cases answer with
    | error fault =>
        refine Exec.logs_pure (.inl ?_)
        rw [List.append_nil]
        exact alterations_of_inert inert
    | ok granted =>
        refine (S.applyEffects_asks ground.post).bind fun effects seen asks => ?_
        have all : ∀ request ∈ requests seen, request.alters = true := by
          intro request member
          obtain ⟨effect, _, rfl⟩ := List.mem_map.mp (asks.1.subset member)
          cases effect <;> rfl
        have begun : alterations seen <+: ground.post.map Effect.request := by
          rw [alterations_of_requests rfl all]
          exact asks.1
        cases effects with
        | error fault =>
            refine Exec.logs_pure (.inr ⟨List.isEmpty_iff.mp closed, ?_⟩)
            rw [List.append_nil, alterations_append, alterations_of_inert inert]
            exact begun
        | ok done =>
            refine Exec.Logs.bind (S.emit_inert _ _ _ _ _) fun _ more alsoInert => ?_
            refine Exec.logs_pure (.inr ⟨List.isEmpty_iff.mp closed, ?_⟩)
            simp only [alterations_append, alterations_of_inert inert,
              alterations_of_inert alsoInert, List.append_nil, List.nil_append]
            exact begun
  · exact Exec.logs_pure (.inl rfl)

private theorem userBindings_inert (action : UserAction) (substitution : Substitution) :
    (S.traced.userBindings action substitution).Only Occurrence.Inert := by
  unfold userBindings
  split
  · exact Exec.only_pure _
  · refine (S.emit_inert _ _ _ _ _).bind fun _ => ?_
    refine (S.ask_inert rfl).bind fun answer => ?_
    cases answer <;> exact Exec.only_pure _

private theorem performUser_asks {x : ActionFrame} {action : UserAction}
    (user : x.action = .user action) :
    (S.traced.performUser action x.substitution).Logs fun outcome seen =>
      ActionAsks x outcome (alterations seen) := by
  unfold performUser
  refine Exec.Logs.bind (S.userBindings_inert action x.substitution) fun found seen inert => ?_
  have silent := alterations_of_inert inert
  cases found with
  | error fault =>
      refine Exec.logs_pure ?_
      rw [List.append_nil, silent]
      exact .nothing _
  | ok bindings =>
      cases bindings with
      | none =>
          refine Exec.logs_pure ?_
          rw [List.append_nil, silent]
          exact .nothing _
      | some bindings =>
          refine (S.carryOut_asks (action.apply bindings)).mono fun outcome more asks => ?_
          rw [alterations_append, silent, List.nil_append]
          rcases asks with nothing | ⟨closed, begun⟩
          · rw [nothing]
            exact .nothing _
          · exact .effects user closed begun

theorem mentalResult_asks (action : MentalAction) :
    (S.traced.mentalResult action).Logs fun _ seen =>
      alterations seen = action.request?.toList := by
  cases action with
  | insert term | delete term | adopt term | drop term =>
      refine S.ask_bind fun answer => ?_
      cases answer <;> exact Exec.logs_pure rfl
  | exit => exact Exec.logs_pure rfl
  | log term =>
      refine Exec.Logs.bind (S.note_only (Occurrence.inert_logged term)) fun _ seen inert => ?_
      refine Exec.logs_pure ?_
      rw [List.append_nil]
      exact alterations_of_inert inert

private theorem performMental_asks {x : ActionFrame} {action : MentalAction}
    (mental : x.action = .mental action) :
    (S.traced.performMental (action.apply x.substitution)).Logs fun outcome seen =>
      ActionAsks x outcome (alterations seen) := by
  have asks {outcome : Outcome} {seen : List Occurrence}
      (closed : (action.apply x.substitution).unbound = [])
      (same : alterations seen = (action.apply x.substitution).request?.toList) :
      ActionAsks x outcome (alterations seen) := by
    cases asked : (action.apply x.substitution).request? with
    | none =>
        rw [same, asked]
        exact .nothing _
    | some request =>
        rw [same, asked]
        exact .update mental closed asked
  unfold performMental
  split
  · rename_i isClosed
    have closed := List.isEmpty_iff.mp isClosed
    refine (S.mentalResult_asks _).bind fun answer seen same => ?_
    cases answer with
    | error fault =>
        refine Exec.logs_pure ?_
        rw [List.append_nil]
        exact asks closed same
    | ok result =>
        refine Exec.Logs.bind (S.emit_inert _ _ _ _ _) fun _ more inert => ?_
        refine Exec.logs_pure (asks closed ?_)
        simp only [alterations_append, alterations_of_inert inert, List.append_nil]
        exact same
  · exact Exec.logs_pure (.nothing _)

private theorem resumeAction_asks (x : ActionFrame) (previous : Option RunResult) :
    (S.traced.resumeAction x previous).Logs fun left seen =>
      ActionAsks x left.2 (alterations seen) := by
  unfold resumeAction
  split
  · exact Exec.logs_pure (.nothing _)
  · split
    · rename_i action user
      exact (S.performUser_asks user).map
    · rename_i action mental
      exact (S.performMental_asks mental).map
    · unfold expandCall
      split
      · exact Exec.logs_pure (.nothing _)
      · split
        · exact Exec.logs_pure (.nothing _)
        · refine Exec.Logs.bind (S.emit_inert _ _ _ _ _) fun _ seen inert => Exec.logs_pure ?_
          rw [List.append_nil, alterations_of_inert inert]
          exact .nothing _

/-! ### All frames -/

def FrameAsks (f : Frame) (outcome : Outcome) (seen : List Occurrence) : Prop :=
  match f with
  | .module g => ModuleAsks g outcome seen
  | .action x => ActionAsks x outcome (alterations seen)
  | .rule _ | .combo _ | .hole => alterations seen = []

theorem resumeWith_asks (f : Frame) (previous : Option RunResult) :
    (S.traced.resumeWith f previous).Logs fun left seen => FrameAsks f left.2 seen := by
  cases f with
  | module g => exact (S.resumeModule_asks g previous).map
  | rule g =>
      have silent : (S.traced.resumeRule g previous).Logs fun _ seen => alterations seen = [] :=
        Exec.Logs.mono (S.resumeRule_inert g previous) fun _ _ => alterations_of_inert
      exact silent.map
  | combo c => exact Exec.logs_pure rfl
  | action x => exact (S.resumeAction_asks x previous).map
  | hole => exact Exec.logs_pure rfl

end Setting

end CognitiveAgent
