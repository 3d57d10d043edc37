import CognitiveAgent.Proofs.Attempts
import CognitiveAgent.Proofs.PassTurns

/-!
Turns of ground frames. A small logic of computations carries closed bindings through a
resumption: as long as what is answered is closed, so are the bindings that the frame goes on with,
those that it hands to its children and those that it offers to a learner.
-/

set_option autoImplicit false

namespace CognitiveAgent

variable {σ ω α β : Type}

/-! ### Closed answers, offers and frames -/

namespace Occurrence

/-- An answer to a condition binds the variables that are left of it, and all answers bind
variables to closed terms only. -/
def Grounding : Occurrence → Prop
  | .exchange (.evaluate condition incoming) (.ok evaluation) => ∀ answer ∈ evaluation.answers,
      answer.IsClosed ∧ ∀ x ∈ (condition.apply incoming).freeVars, x ∈ answer.domain
  | .exchange (.plan _ _) (.ok (some plan)) => ∀ step ∈ plan, step.substitution.IsClosed
  | _ => True

instance : DecidablePred Grounding
  | .exchange (.evaluate condition incoming) (.ok evaluation) =>
      inferInstanceAs (Decidable (∀ answer ∈ evaluation.answers, answer.IsClosed ∧
        ∀ x ∈ (condition.apply incoming).freeVars, x ∈ answer.domain))
  | .exchange (.plan _ _) (.ok (some plan)) =>
      inferInstanceAs (Decidable (∀ step ∈ plan, step.substitution.IsClosed))
  | .exchange (.evaluate _ _) (.error _) | .exchange (.plan _ _) (.error _)
  | .exchange (.plan _ _) (.ok none) | .exchange (.insert _) _ | .exchange (.delete _) _
  | .exchange (.adopt _) _ | .exchange (.drop _) _ | .exchange .hasGoals _
  | .exchange (.enterFocus _ _ _) _ | .exchange (.exitFocus _) _ | .exchange (.perform _) _
  | .exchange .reward _ | .exchange (.choose _ _) _ | .exchange (.learn _ _) _
  | .exchange .stopSignal _ | .event _ | .logged _ => .isTrue trivial

end Occurrence

def Request.offered : Request → List Candidate
  | .choose _ candidates => candidates
  | _ => []

namespace Occurrence

def offered : Occurrence → List Candidate
  | .exchange request _ => request.offered
  | .event _ | .logged _ => []

def OffersClosed (o : Occurrence) : Prop := ∀ c ∈ o.offered, c.substitution.IsClosed

private theorem offersClosed_of_nil {o : Occurrence} (nothing : o.offered = []) :
    o.OffersClosed := by
  intro c member
  rw [nothing] at member
  cases member

theorem Upkeep.offersClosed {o : Occurrence} (upkeep : o.Upkeep) : o.OffersClosed :=
  offersClosed_of_nil (by cases upkeep <;> rfl)

/-- Closed answers let a turn return, if what is offered is closed as well. -/
theorem Grounding.tame {o : Occurrence} (grounding : o.Grounding) (offers : o.OffersClosed) :
    o.Tame := by
  unfold Tame
  split
  · exact fun answer given => (grounding answer given).1.acyclic
  · exact fun step given => (grounding step given).acyclic
  · exact fun c chosen => (offers c (List.mem_of_getElem? chosen)).acyclic.all_resolve _
  · trivial

end Occurrence

namespace Frame

def Ground (f : Frame) : Prop := ∀ s ∈ f.substitutions, s.IsClosed

private theorem ground_hole : hole.Ground := fun _ member => absurd member List.not_mem_nil

private theorem ground_combo {c : ComboFrame} (closed : c.substitution.IsClosed) :
    (Frame.combo c).Ground := by
  intro s member
  rw [List.mem_singleton.mp member]
  exact closed

private theorem ground_action {x : ActionFrame} (closed : x.substitution.IsClosed) :
    (Frame.action x).Ground := by
  intro s member
  rw [List.mem_singleton.mp member]
  exact closed

private theorem ground_rule {g : RuleFrame} (closed : g.substitution.IsClosed)
    (options : ∀ option ∈ g.pending.getD [], option.substitution.IsClosed) :
    (Frame.rule g).Ground := by
  intro s member
  rcases List.mem_cons.mp member with rfl | later
  · exact closed
  · obtain ⟨option, inside, rfl⟩ := List.mem_map.mp later
    exact options option inside

theorem Ground.own {g : RuleFrame} (ground : (Frame.rule g).Ground) : g.substitution.IsClosed :=
  ground _ List.mem_cons_self

theorem Ground.pending {g : RuleFrame} (ground : (Frame.rule g).Ground)
    {options : List Instantiation} (waiting : g.pending = some options) :
    ∀ option ∈ options, option.substitution.IsClosed := by
  intro option inside
  refine ground _ (List.mem_cons_of_mem _ (List.mem_map_of_mem ?_))
  rw [waiting]
  exact inside

private theorem ground_module {g : ModuleFrame} (closed : g.activation.substitution.IsClosed)
    (planned : ∀ s ∈ g.strategy.planned, s.IsClosed) : (Frame.module g).Ground := by
  intro s member
  rcases List.mem_cons.mp member with rfl | later
  · exact closed
  · exact planned s later

theorem Ground.activation {g : ModuleFrame} (ground : (Frame.module g).Ground) :
    g.activation.substitution.IsClosed := ground _ List.mem_cons_self

theorem ground_start (m : Module) {s : Substitution} (closed : s.IsClosed)
    (inherited : Option RuleOrder) (focus : Option Term) :
    (Frame.module (.start m s inherited focus)).Ground := by
  have none := StrategyState.planned_start m.strategy
  refine ground_module closed fun other member => ?_
  change other ∈ (StrategyState.start m.strategy).planned at member
  rw [none] at member
  cases member

end Frame

def Outcome.Ground : Outcome → Prop
  | .yield children => ∀ f ∈ children, f.Ground
  | .done _ | .failed _ => True

private theorem Outcome.ground_of_result {outcome : Outcome} {result : Except Failure RunResult}
    (final : outcome.result? = some result) : outcome.Ground := by
  cases outcome with
  | yield children => cases final
  | done _ | failed _ => trivial

private theorem Outcome.ground_one {f : Frame} (ground : f.Ground) :
    (Outcome.yield [f]).Ground := by
  intro g member
  rw [List.mem_singleton.mp member]
  exact ground

private theorem Outcome.ground_nothing : (Outcome.yield []).Ground :=
  fun _ member => absurd member List.not_mem_nil

/-! ### A logic of closed answers -/

namespace Exec

/-- Under the precondition, and as long as the answers are ground, the value is as stated and what
is offered is closed. -/
def Grounds (computation : Exec σ (List Occurrence) α) (pre : Prop) (post : α → Prop) : Prop :=
  computation.Logs fun value seen => pre → (∀ o ∈ seen, o.Grounding) →
    post value ∧ ∀ o ∈ seen, o.OffersClosed

variable {computation : Exec σ (List Occurrence) α} {pre : Prop} {post : α → Prop}

private theorem grounds_pure {value : α} (here : pre → post value) :
    Grounds (pure value : Exec σ (List Occurrence) α) pre post :=
  logs_pure fun holds _ => ⟨here holds, fun _ member => absurd member List.not_mem_nil⟩

theorem Grounds.bind {first : Exec σ (List Occurrence) α}
    {rest : α → Exec σ (List Occurrence) β} {last : β → Prop} (before : first.Grounds pre post)
    (after : ∀ value, (rest value).Grounds (pre ∧ post value) last) :
    (first >>= rest).Grounds pre last := by
  refine Logs.bind before fun value seen here => (after value).mono fun final more there => ?_
  intro holds all
  obtain ⟨good, offered⟩ := here holds fun o member => all o (List.mem_append_left more member)
  obtain ⟨finalGood, alsoOffered⟩ :=
    there ⟨holds, good⟩ fun o member => all o (List.mem_append_right seen member)
  refine ⟨finalGood, fun o member => ?_⟩
  rcases List.mem_append.mp member with earlier | later
  · exact offered o earlier
  · exact alsoOffered o later

private theorem Logs.grounds {holds : α → List Occurrence → Prop} (logs : computation.Logs holds)
    (implies : ∀ value seen, holds value seen →
      (pre → post value) ∧ ∀ o ∈ seen, o.OffersClosed) : computation.Grounds pre post :=
  logs.mono fun value seen here known _ =>
    ⟨(implies value seen here).1 known, (implies value seen here).2⟩

theorem Grounds.weaken {weaker : Prop} (grounds : computation.Grounds pre post)
    (implies : weaker → pre) : computation.Grounds weaker post :=
  Logs.mono grounds fun _ _ here holds => here (implies holds)

theorem Grounds.mono {looser : α → Prop} (grounds : computation.Grounds pre post)
    (implies : ∀ value, post value → looser value) : computation.Grounds pre looser :=
  Logs.mono grounds fun value _ here holds all =>
    ⟨implies value (here holds all).1, (here holds all).2⟩

end Exec

namespace Setting

variable (S : Setting σ ω) {pre : Prop}

private theorem ask_grounds {request : Request}
    (offered : pre → ∀ c ∈ request.offered, c.substitution.IsClosed) :
    (S.traced.ask request).Grounds pre fun answer =>
      (Occurrence.exchange request answer).Grounding := by
  refine S.ask_logs fun answer holds ground => ?_
  refine ⟨ground _ List.mem_cons_self, fun o member => ?_⟩
  rw [List.mem_singleton.mp member]
  exact offered holds

private theorem ask_plain {request : Request} (plain : request.offered = []) :
    (S.traced.ask request).Grounds pre fun answer =>
      (Occurrence.exchange request answer).Grounding := by
  refine S.ask_grounds fun _ c member => ?_
  rw [plain] at member
  cases member

private theorem note_any {occurrence : Occurrence} (nothing : occurrence.offered = []) :
    (S.traced.note occurrence).Grounds pre fun _ => True := by
  refine S.note_logs fun _ _ => ⟨trivial, fun o member => ?_⟩
  rw [List.mem_singleton.mp member]
  exact Occurrence.offersClosed_of_nil nothing

private theorem emit_any (channel : Channel) (subject : String) (source : Option Location)
    (template : String) (arguments : List String) :
    (S.traced.emit channel subject source template arguments).Grounds pre fun _ => True :=
  S.note_any rfl

private theorem log_any (term : Term) : (S.traced.log term).Grounds pre fun _ => True :=
  S.note_any rfl

end Setting

/-! ### Rules and combos -/

private theorem Evaluation.isClosed_item {names : List String} {answer : Substitution}
    (closed : answer.IsClosed) (bound : ∀ x ∈ names, x ∈ answer.domain) :
    (item names answer).isClosed = true := by
  have value (x : String) (member : x ∈ names) : (valueOf answer x).isClosed = true := by
    unfold valueOf
    split
    · rename_i term found
      have closedTerm := Substitution.isClosed_of_get? closed found
      rw [Term.apply_of_closed closedTerm]
      exact closedTerm
    · rename_i missing
      exact absurd (bound x member) (Substitution.get?_eq_none_iff.mp missing)
  unfold item
  split
  · rename_i name
    exact value name List.mem_cons_self
  · rw [Term.isClosed_list_iff]
    intro t member
    obtain ⟨x, inside, rfl⟩ := List.mem_map.mp member
    exact value x inside

/-- What is made of ground answers and closed bindings is closed. -/
theorem Rule.instantiations_closed {rule : Rule} {e : Evaluation} {incoming : Substitution}
    (closed : incoming.IsClosed)
    (ground : (Occurrence.exchange (.evaluate rule.condition incoming) (.ok e)).Grounding) :
    ∀ option ∈ rule.instantiations e incoming, option.substitution.IsClosed := by
  have merged : ∀ option ∈ e.instantiations incoming, option.substitution.IsClosed := by
    intro option member
    obtain ⟨group, inside, found⟩ := List.mem_flatMap.mp member
    obtain ⟨answer, given, fits⟩ := List.mem_filterMap.mp found
    obtain ⟨bindings, combined, rfl⟩ := Option.map_eq_some_iff.mp fits
    have among : answer ∈ e.answers := List.mem_flatMap.mpr ⟨group, inside, given⟩
    exact (Substitution.combine_closed closed (ground answer among).1 combined).1
  intro option member
  unfold Rule.instantiations at member
  split at member
  -- The list of all answers is closed, because each of them binds all variables that are left.
  · rw [List.mem_singleton.mp member]
    refine closed.bind _ (Term.isClosed_list_iff.mpr fun t inside => ?_)
    obtain ⟨answer, given, rfl⟩ := List.mem_map.mp inside
    exact Evaluation.isClosed_item (ground answer given).1 (ground answer given).2
  · split at member
    · exact merged option member
    · cases member
  · split at member
    · exact merged option member
    · cases member

namespace Setting

variable (S : Setting σ ω)

private theorem instantiate_grounds (rule : Rule) (incoming : Substitution) :
    (S.traced.instantiate rule incoming).Grounds incoming.IsClosed fun answer =>
      ∀ options, answer = .ok options → ∀ option ∈ options, option.substitution.IsClosed := by
  unfold instantiate
  refine (S.emit_any _ _ _ _ _).bind fun _ => ?_
  refine (S.ask_plain rfl).bind fun answer => ?_
  cases answer with
  | error fault =>
      refine Exec.grounds_pure fun _ options impossible => ?_
      cases impossible
  | ok e =>
      refine Exec.grounds_pure fun holds options same => ?_
      rw [← Except.ok.inj same]
      exact Rule.instantiations_closed holds.1.1 holds.2

private theorem arrange_grounds (order : RuleOrder) (options : List Instantiation) :
    (arrange order options : Exec σ (List Occurrence) (List Instantiation)).Grounds
      (∀ option ∈ options, option.substitution.IsClosed) fun arranged =>
        ∀ option ∈ arranged, option.substitution.IsClosed := by
  unfold arrange
  split
  · refine (shuffle_logs options).mono fun shuffled seen noted closed _ => ?_
    obtain ⟨rfl, random, rfl⟩ := noted
    refine ⟨fun option member => ?_, fun o member => absurd member List.not_mem_nil⟩
    exact closed option ((Random.shuffle_perm random options).mem_iff.mp member)
  · exact Exec.grounds_pure fun closed => closed

private theorem fire_grounds (f : RuleFrame) (options : List Instantiation) :
    (S.traced.fire f options).Grounds
      (f.substitution.IsClosed ∧ ∀ option ∈ options, option.substitution.IsClosed) fun left =>
        (Frame.rule left.1).Ground ∧ left.2.Ground := by
  cases options with
  | nil => exact Exec.grounds_pure fun closed => ⟨Frame.ground_rule closed.1 closed.2, trivial⟩
  | cons option rest =>
      refine (S.emit_any _ _ _ _ _).bind fun _ => ?_
      refine Exec.grounds_pure fun closed => ?_
      obtain ⟨⟨own, others⟩, _⟩ := closed
      refine ⟨Frame.ground_rule own fun later member => ?_, Outcome.ground_one ?_⟩
      · exact others later (List.mem_cons_of_mem option member)
      · exact Frame.ground_combo (others option List.mem_cons_self)

private theorem resumeRule_grounds (f : RuleFrame) (previous : Option RunResult) :
    (S.traced.resumeRule f previous).Grounds (Frame.rule f).Ground fun left =>
      (Frame.rule left.1).Ground ∧ left.2.Ground := by
  unfold resumeRule
  split
  · refine ((S.instantiate_grounds f.rule f.substitution).weaken Frame.Ground.own).bind
      fun answer => ?_
    cases answer with
    | error failure => exact Exec.grounds_pure fun holds => ⟨holds.1, trivial⟩
    | ok options =>
        refine ((arrange_grounds f.order options).weaken fun holds => holds.2 options rfl).bind
          fun arranged => ?_
        exact (S.fire_grounds f arranged).weaken fun holds => ⟨holds.1.1.own, holds.2⟩
  · rename_i waiting
    exact (S.fire_grounds f _).weaken fun ground => ⟨ground.own, ground.pending waiting⟩
  · rename_i waiting
    dsimp only
    split
    · exact Exec.grounds_pure fun ground => ⟨ground, trivial⟩
    · exact (S.fire_grounds _ _).weaken fun ground => ⟨ground.own, ground.pending waiting⟩

end Setting

private theorem ComboFrame.next_ground {f : ComboFrame} (closed : f.substitution.IsClosed)
    (actions : List Action) :
    (Frame.combo (f.next actions).1).Ground ∧ (f.next actions).2.Ground := by
  cases actions with
  | nil => exact ⟨Frame.ground_combo closed, trivial⟩
  | cons action rest =>
      exact ⟨Frame.ground_combo closed, Outcome.ground_one (Frame.ground_action closed)⟩

private theorem ComboFrame.resume_ground {f : ComboFrame} (closed : f.substitution.IsClosed)
    (previous : Option RunResult) :
    (Frame.combo (f.resume previous).1).Ground ∧ (f.resume previous).2.Ground := by
  unfold ComboFrame.resume
  split
  · exact next_ground closed _
  · exact next_ground closed _
  · dsimp only
    split
    · exact ⟨Frame.ground_combo closed, trivial⟩
    · refine next_ground ?_ _
      exact closed

/-! ### Actions -/

namespace Setting

variable (S : Setting σ ω) {pre : Prop}

private theorem applyEffects_any (effects : List Effect) :
    (S.traced.applyEffects effects).Grounds pre fun _ => True := by
  induction effects with
  | nil => exact Exec.grounds_pure fun _ => trivial
  | cons effect rest ih =>
      cases effect with
      | insert belief | delete belief =>
          refine (S.ask_plain rfl).bind fun answer => ?_
          cases answer with
          | error fault => exact Exec.grounds_pure fun _ => trivial
          | ok update => exact ih.weaken And.left

private theorem carryOut_grounds (ground : UserAction) :
    (S.traced.carryOut ground).Grounds pre Outcome.Ground := by
  unfold carryOut
  split
  · refine (S.ask_plain rfl).bind fun answer => ?_
    cases answer with
    | error fault => exact Exec.grounds_pure fun _ => trivial
    | ok _ =>
        refine (S.applyEffects_any _).bind fun answer => ?_
        cases answer with
        | error fault => exact Exec.grounds_pure fun _ => trivial
        | ok _ => exact (S.emit_any _ _ _ _ _).bind fun _ => Exec.grounds_pure fun _ => trivial
  · exact Exec.grounds_pure fun _ => trivial

private theorem performUser_grounds (action : UserAction) (substitution : Substitution) :
    (S.traced.performUser action substitution).Grounds pre Outcome.Ground := by
  have bindings : (S.traced.userBindings action substitution).Grounds pre fun _ => True := by
    unfold userBindings
    split
    · exact Exec.grounds_pure fun _ => trivial
    · refine (S.emit_any _ _ _ _ _).bind fun _ => ?_
      refine (S.ask_plain rfl).bind fun answer => ?_
      cases answer <;> exact Exec.grounds_pure fun _ => trivial
  refine bindings.bind fun found => ?_
  match found with
  | .error fault => exact Exec.grounds_pure fun _ => trivial
  | .ok none => exact Exec.grounds_pure fun _ => trivial
  | .ok (some bindings) => exact S.carryOut_grounds _

private theorem performMental_grounds (action : MentalAction) :
    (S.traced.performMental action).Grounds pre Outcome.Ground := by
  have updates : (S.traced.mentalResult action).Grounds pre fun _ => True := by
    cases action with
    | insert term | delete term | adopt term | drop term =>
        refine (S.ask_plain rfl).bind fun answer => ?_
        cases answer <;> exact Exec.grounds_pure fun _ => trivial
    | exit => exact Exec.grounds_pure fun _ => trivial
    | log term => exact (S.log_any term).bind fun _ => Exec.grounds_pure fun _ => trivial
  unfold performMental
  split
  · refine updates.bind fun answer => ?_
    cases answer with
    | error fault => exact Exec.grounds_pure fun _ => trivial
    | ok result => exact (S.emit_any _ _ _ _ _).bind fun _ => Exec.grounds_pure fun _ => trivial
  · exact Exec.grounds_pure fun _ => trivial

private theorem expandCall_grounds (f : ActionFrame) (target : CallTarget) (params : List Term)
    (source : Option Location) :
    (S.traced.expandCall f target params source).Grounds (Frame.action f).Ground fun left =>
      (Frame.action left.1).Ground ∧ left.2.Ground := by
  unfold expandCall
  split
  · exact Exec.grounds_pure fun ground => ⟨ground, trivial⟩
  · split
    · exact Exec.grounds_pure fun ground => ⟨ground, trivial⟩
    · rename_i m _ _ bindings bound
      refine (S.emit_any _ _ _ _ _).bind fun _ => Exec.grounds_pure fun holds => ?_
      have own := holds.1 _ List.mem_cons_self
      refine ⟨Frame.ground_action own, Outcome.ground_one ?_⟩
      exact Frame.ground_start m (Module.bindCall_closed own bound) _ _

private theorem resumeAction_grounds (f : ActionFrame) (previous : Option RunResult) :
    (S.traced.resumeAction f previous).Grounds (Frame.action f).Ground fun left =>
      (Frame.action left.1).Ground ∧ left.2.Ground := by
  unfold resumeAction
  split
  · exact Exec.grounds_pure fun ground => ⟨ground, trivial⟩
  · split
    · refine (S.performUser_grounds _ _).bind fun outcome => ?_
      exact Exec.grounds_pure fun holds => ⟨holds.1, holds.2⟩
    · refine (S.performMental_grounds _).bind fun outcome => ?_
      exact Exec.grounds_pure fun holds => ⟨holds.1, holds.2⟩
    · exact S.expandCall_grounds f _ _ _

end Setting

/-! ### Modules -/

namespace Setting

variable (S : Setting σ ω) {pre : Prop}

private theorem eventPass_ground {a : Activation} {frames : List Frame}
    (events : S.eventPass a = some frames) : (Outcome.yield frames).Ground := by
  unfold eventPass at events
  split at events
  · obtain ⟨event, _, rfl⟩ := Option.map_eq_some_iff.mp events
    intro f member
    simp only [List.mem_cons, List.not_mem_nil, or_false] at member
    rcases member with rfl | rfl | rfl | rfl
    · exact Frame.ground_hole
    · exact Frame.ground_hole
    · exact Frame.ground_hole
    · exact Frame.ground_start event Substitution.isClosed_empty _ _
  · cases events

private theorem comboFrames_ground (a : Activation) (combo : List Action) {s : Substitution}
    (closed : s.IsClosed) (focus : Option Term) :
    (Outcome.yield (a.comboFrames combo s focus)).Ground := by
  intro f member
  simp only [Activation.comboFrames, List.mem_cons, List.not_mem_nil, or_false] at member
  rcases member with rfl | rfl
  · exact Frame.ground_hole
  · exact Frame.ground_combo closed

private theorem prepare_grounds (a : Activation) :
    (S.traced.prepare a).Grounds a.substitution.IsClosed fun left =>
      left.1.substitution.IsClosed := by
  refine ((S.prepare_upkeep a).and_returns (S.traced.prepare_returns a)).grounds
    fun left seen here => ?_
  obtain ⟨upkeep, ⟨order, prepared, same⟩, _⟩ := here
  refine ⟨fun closed => ?_, fun o member => (upkeep o member).offersClosed⟩
  rw [same]
  exact closed

private theorem mustStop_any (a : Activation) :
    (S.traced.mustStop a).Grounds pre fun _ => True := by
  unfold mustStop
  split
  · exact (S.ask_plain rfl).mono fun _ _ => trivial
  · exact Exec.grounds_pure fun _ => trivial

private theorem exitHolds_any (a : Activation) :
    (S.traced.exitHolds a).Grounds pre fun _ => True := by
  unfold exitHolds
  cases a.module.exit with
  | noGoals => exact (S.ask_plain rfl).bind fun _ => Exec.grounds_pure fun _ => trivial
  | noAction | always | never => exact Exec.grounds_pure fun _ => trivial

private theorem nextPass_grounds (a : Activation) :
    (S.traced.nextPass a).Grounds a.substitution.IsClosed fun later =>
      later.substitution.IsClosed := by
  refine (S.nextPass_upkeep a).grounds fun later seen here => ?_
  obtain ⟨rfl, upkeep⟩ := here
  exact ⟨fun closed => closed, fun o member => (upkeep o member).offersClosed⟩

private theorem finish_grounds (a : Activation) :
    (S.traced.finish a).Grounds a.substitution.IsClosed fun left =>
      left.1.substitution.IsClosed ∧ left.2.Ground := by
  refine ((S.finish_leaves a).and_returns (S.traced.finish_returns a)).grounds
    fun left seen here => ?_
  obtain ⟨⟨stopped, rest, rfl, upkeep, _⟩, kept, result, final⟩ := here
  refine ⟨fun closed => ⟨?_, Outcome.ground_of_result final⟩, fun o member => ?_⟩
  · rw [kept.substitution]
    exact closed
  · rcases List.mem_cons.mp member with rfl | later
    · exact fun c offered => absurd offered List.not_mem_nil
    · exact (upkeep o later).offersClosed

def Sound {τ : Type} (left : Activation × τ × Outcome) : Prop :=
  left.1.substitution.IsClosed ∧ left.2.2.Ground

private theorem leave_grounds {τ : Type} (a : Activation) (state : τ) :
    (do
      let (left, outcome) ← S.traced.finish a
      return (left, state, outcome) :
        Exec σ (List Occurrence) (Activation × τ × Outcome)).Grounds a.substitution.IsClosed
      Sound :=
  (S.finish_grounds a).bind fun _ => Exec.grounds_pure fun known => known.2

private theorem stop_grounds {τ : Type} (a : Activation) (state : τ)
    {proceed : Exec σ (List Occurrence) (Activation × τ × Outcome)}
    (proceeds : proceed.Grounds a.substitution.IsClosed Sound) :
    (do
      if ← S.traced.mustStop a then
        let (left, outcome) ← S.traced.finish a
        return (left, state, outcome)
      else proceed : Exec σ (List Occurrence) (Activation × τ × Outcome)).Grounds
      a.substitution.IsClosed Sound := by
  refine (S.mustStop_any a).bind fun stop => ?_
  cases stop with
  | true => exact (S.leave_grounds a state).weaken And.left
  | false => exact proceeds.weaken And.left

/-! ### Passes -/

private theorem endPass_grounds (a : Activation) (state : PassState) :
    (S.traced.endPass a state).Grounds a.substitution.IsClosed fun left =>
      left.1.substitution.IsClosed ∧ ∀ outcome, left.2.2 = some outcome → outcome.Ground := by
  unfold endPass
  refine (S.exitHolds_any a).bind fun holds => ?_
  cases holds with
  | true =>
      refine ((S.finish_grounds a).weaken And.left).bind fun left => Exec.grounds_pure fun known => ?_
      refine ⟨known.2.1, fun outcome is => ?_⟩
      rw [← Option.some.inj is]
      exact known.2.2
  | false =>
      refine ((S.nextPass_grounds a).weaken And.left).bind fun later => ?_
      cases pass : S.traced.eventPass later with
      | some frames =>
          refine Exec.grounds_pure fun known => ⟨known.2, fun outcome is => ?_⟩
          rw [← Option.some.inj is]
          exact S.traced.eventPass_ground pass
      | none =>
          refine Exec.grounds_pure fun known => ⟨known.2, fun outcome impossible => ?_⟩
          cases impossible

private theorem tryNext_grounds (a : Activation) (state : PassState) :
    (S.traced.tryNext a state).Grounds a.substitution.IsClosed Sound := by
  unfold tryNext
  have opens : (openPass a state : Exec σ (List Occurrence) PassState).Grounds
      a.substitution.IsClosed fun _ => True := by
    refine (openPass_logs a state).grounds fun opened seen noted => ⟨fun _ => trivial, fun o member => ?_⟩
    rw [noted.1] at member
    cases member
  refine opens.bind fun opened => ?_
  split
  · refine Exec.grounds_pure fun known => ⟨known.1, Outcome.ground_one ?_⟩
    exact Frame.ground_rule known.1 fun option member => absurd member List.not_mem_nil
  · refine ((S.endPass_grounds a opened).weaken And.left).bind fun left =>
      Exec.grounds_pure fun known => ⟨known.2.1, ?_⟩
    obtain ⟨later, state, outcome⟩ := left
    cases outcome with
    | none => exact Outcome.ground_nothing
    | some outcome => exact known.2.2 outcome rfl

private theorem resumePasses_grounds (a : Activation) (state : PassState)
    (previous : Option RunResult) :
    (S.traced.resumePasses a state previous).Grounds a.substitution.IsClosed Sound := by
  have kept := PassState.absorb_keeps state a previous
  unfold resumePasses
  generalize state.absorb a previous = heard at kept ⊢
  obtain ⟨now, closes⟩ := heard
  rw [← kept.substitution]
  refine S.stop_grounds now _ ?_
  cases closes with
  | false => exact S.tryNext_grounds now _
  | true =>
      refine (S.endPass_grounds now _).bind fun left => ?_
      obtain ⟨later, after, outcome⟩ := left
      cases outcome with
      | some outcome => exact Exec.grounds_pure fun known => ⟨known.2.1, known.2.2 outcome rfl⟩
      | none => exact (S.tryNext_grounds later after).weaken fun known => known.2.1

/-! ### Choices -/

private theorem candidatesOf_grounds (incoming : Substitution) (rules : List (Rule × Nat)) :
    (S.traced.candidatesOf incoming rules).Grounds incoming.IsClosed fun answer =>
      ∀ candidates, answer = .ok candidates → ∀ c ∈ candidates, c.substitution.IsClosed := by
  induction rules with
  | nil =>
      refine Exec.grounds_pure fun _ candidates same => ?_
      rw [← Except.ok.inj same]
      exact fun c member => absurd member List.not_mem_nil
  | cons first rest ih =>
      refine (S.instantiate_grounds first.1 incoming).bind fun answer => ?_
      cases answer with
      | error failure =>
          refine Exec.grounds_pure fun _ candidates impossible => ?_
          cases impossible
      | ok options =>
          refine (ih.weaken And.left).bind fun others => ?_
          cases others with
          | error failure =>
              refine Exec.grounds_pure fun _ candidates impossible => ?_
              cases impossible
          | ok others =>
              refine Exec.grounds_pure fun known candidates same c member => ?_
              rw [← Except.ok.inj same] at member
              rcases List.mem_append.mp member with here | later
              · obtain ⟨option, inside, rfl⟩ := List.mem_map.mp here
                exact known.1.2 options rfl option inside
              · exact known.2 others rfl c later

private theorem reportReward_any (a : Activation) :
    (S.traced.reportReward a).Grounds pre fun _ => True := by
  have rewarded : S.traced.rewardNow.Grounds pre fun _ => True := by
    refine (S.ask_plain rfl).bind fun reward => ?_
    cases reward with
    | some reward => exact Exec.grounds_pure fun _ => trivial
    | none =>
        refine (S.ask_plain rfl).bind fun holds => ?_
        cases holds <;> exact Exec.grounds_pure fun _ => trivial
  refine rewarded.bind fun reward => ?_
  exact (S.ask_plain rfl).bind fun _ => S.emit_any _ _ _ _ _

private theorem decide_grounds (a : Activation) (candidates : List Candidate) :
    (S.traced.decide a candidates).Grounds
      (a.substitution.IsClosed ∧ ∀ c ∈ candidates, c.substitution.IsClosed) Sound := by
  unfold Setting.decide
  refine (S.ask_grounds fun known => known.2).bind fun chosen => ?_
  cases found : candidates[chosen]? with
  | none => exact Exec.grounds_pure fun known => ⟨known.1.1, trivial⟩
  | some choice =>
      refine (S.emit_any _ _ _ _ _).bind fun _ => Exec.grounds_pure fun known => ?_
      refine ⟨known.1.1.1, comboFrames_ground a choice.combo ?_ choice.focus⟩
      exact known.1.1.2 choice (List.mem_of_getElem? found)

private theorem pause_grounds (a : Activation) :
    (S.traced.pause a).Grounds a.substitution.IsClosed Sound := by
  unfold pause
  refine (S.exitHolds_any a).bind fun holds => ?_
  cases holds with
  | true => exact (S.leave_grounds a _).weaken And.left
  | false =>
      refine ((S.nextPass_grounds a).weaken And.left).bind fun later => ?_
      cases pass : S.traced.eventPass later with
      | some frames => exact Exec.grounds_pure fun known => ⟨known.2, S.traced.eventPass_ground pass⟩
      | none => exact Exec.grounds_pure fun known => ⟨known.2, Outcome.ground_nothing⟩

private theorem offer_grounds (a : Activation) :
    (S.traced.offer a).Grounds a.substitution.IsClosed Sound := by
  unfold offer
  refine (S.candidatesOf_grounds a.substitution _).bind fun answer => ?_
  match answer with
  | .error failure => exact Exec.grounds_pure fun known => ⟨known.1, trivial⟩
  | .ok [] => exact (S.pause_grounds a).weaken And.left
  | .ok (c :: rest) =>
      exact (S.decide_grounds a (c :: rest)).weaken fun known => ⟨known.1, known.2 _ rfl⟩

private theorem settle_grounds (a : Activation) :
    (S.traced.settle a).Grounds a.substitution.IsClosed Sound := by
  unfold settle
  refine (S.reportReward_any a).bind fun _ => ?_
  refine (S.stop_grounds a _ ?_).weaken And.left
  refine (S.exitHolds_any a).bind fun holds => ?_
  cases holds with
  | true => exact (S.leave_grounds a _).weaken And.left
  | false =>
      refine ((S.nextPass_grounds a).weaken And.left).bind fun later => ?_
      exact (S.offer_grounds later).weaken And.right

private theorem resumeChoices_grounds (a : Activation) (state : ChoiceState)
    (previous : Option RunResult) :
    (S.traced.resumeChoices a state previous).Grounds a.substitution.IsClosed Sound := by
  have kept := ChoiceState.absorb_keeps state a previous
  unfold resumeChoices
  generalize state.absorb a previous = heard at kept ⊢
  obtain ⟨now, stage⟩ := heard
  rw [← kept.substitution]
  cases stage with
  | idle => exact S.stop_grounds now _ (S.offer_grounds now)
  | passed chose =>
      cases chose with
      | false => exact S.stop_grounds now _ (S.offer_grounds now)
      | true => exact S.settle_grounds now
  | acted =>
      refine (S.mustStop_any now).bind fun stop => ?_
      cases stop with
      | true =>
          refine (S.reportReward_any now).bind fun _ => ?_
          exact (S.leave_grounds now _).weaken fun known => known.1.1
      | false =>
          dsimp only
          cases pass : S.traced.eventPass now with
          | some frames =>
              exact Exec.grounds_pure fun known => ⟨known.1, S.traced.eventPass_ground pass⟩
          | none => exact (S.settle_grounds now).weaken And.left

/-! ### Plans -/

def StepsClosed (state : PlanState) : Prop :=
  ∀ step ∈ state.plan.getD [], step.substitution.IsClosed

private theorem take?_closed {state later : PlanState} {step : PlanStep}
    (closed : StepsClosed state) (next : state.take? = some (step, later)) :
    step.substitution.IsClosed ∧ StepsClosed later := by
  unfold PlanState.take? at next
  split at next
  · rename_i first rest planned
    cases next
    rw [StepsClosed, planned] at closed
    exact ⟨closed step List.mem_cons_self,
      fun other member => closed other (List.mem_cons_of_mem step member)⟩
  · cases next
  · cases next

private theorem absorb_closed {state : PlanState} (a : Activation) (previous : Option RunResult)
    (closed : StepsClosed state) : StepsClosed (state.absorb a previous).2 := by
  unfold PlanState.absorb
  split
  · exact closed
  · split
    · rename_i result _
      cases result.performedAction with
      | true => exact closed
      | false => exact fun step member => absurd member List.not_mem_nil
    · exact closed

private theorem runStep_grounds (a : Activation) (step : PlanStep) :
    (S.traced.runStep a step).Grounds step.substitution.IsClosed Outcome.Ground := by
  unfold runStep
  refine (S.emit_any _ _ _ _ _).bind fun _ => Exec.grounds_pure fun known => ?_
  exact comboFrames_ground a [step.action] known.1 none

private theorem replan_grounds (a : Activation) (state : PlanState) :
    (S.traced.replan a state).Grounds (a.substitution.IsClosed ∧ StepsClosed state) fun left =>
      Sound left ∧ StepsClosed left.2.1 := by
  unfold replan
  refine (S.ask_plain rfl).bind fun answer => ?_
  cases answer with
  | error fault => exact Exec.grounds_pure fun known => ⟨⟨known.1.1, trivial⟩, known.1.2⟩
  | ok plan =>
      refine (S.emit_any _ _ _ _ _).bind fun _ => ?_
      match plan with
      | none | some [] =>
          refine Exec.grounds_pure fun known => ⟨⟨known.1.1.1, Outcome.ground_nothing⟩, ?_⟩
          exact fun step member => absurd member List.not_mem_nil
      | some (step :: rest) =>
          refine ((S.runStep_grounds a step).weaken fun known =>
            known.1.2 step List.mem_cons_self).bind fun outcome => ?_
          refine Exec.grounds_pure fun known => ⟨⟨known.1.1.1.1, known.2⟩, fun other member => ?_⟩
          exact known.1.1.2 other (List.mem_cons_of_mem step member)

private theorem leavePlan_grounds (a : Activation) (state : PlanState) :
    (do
      let (left, outcome) ← S.traced.finish a
      return (left, state, outcome) :
        Exec σ (List Occurrence) (Activation × PlanState × Outcome)).Grounds
      (a.substitution.IsClosed ∧ StepsClosed state) fun left =>
        Sound left ∧ StepsClosed left.2.1 :=
  ((S.finish_grounds a).weaken And.left).bind fun _ =>
    Exec.grounds_pure fun known => ⟨known.2, known.1.2⟩

private theorem resumePlans_grounds (a : Activation) (state : PlanState)
    (previous : Option RunResult) :
    (S.traced.resumePlans a state previous).Grounds (a.substitution.IsClosed ∧ StepsClosed state)
      fun left => Sound left ∧ StepsClosed left.2.1 := by
  have kept := (PlanState.absorb_keeps state a previous).1
  have steps : StepsClosed state → StepsClosed (state.absorb a previous).2 := absorb_closed a previous
  unfold resumePlans
  generalize state.absorb a previous = heard at kept steps ⊢
  obtain ⟨now, waiting⟩ := heard
  have heeds : a.substitution.IsClosed ∧ StepsClosed state →
      now.substitution.IsClosed ∧ StepsClosed waiting := by
    intro known
    rw [kept.substitution]
    exact ⟨known.1, steps known.2⟩
  have dropped (planned : Bool) :
      StepsClosed { waiting with plan := none, plannedBefore := planned } :=
    fun step member => absurd member List.not_mem_nil
  refine Exec.Grounds.weaken ?_ heeds
  refine (S.mustStop_any now).bind fun stop => ?_
  cases stop with
  | true => exact (S.leavePlan_grounds now waiting).weaken And.left
  | false =>
      cases next : waiting.take? with
      | some taken =>
          obtain ⟨step, later⟩ := taken
          refine ((S.runStep_grounds now step).weaken fun known =>
            (take?_closed known.1.2 next).1).bind fun outcome => ?_
          refine Exec.grounds_pure fun known => ⟨⟨known.1.1.1, known.2⟩, ?_⟩
          exact (take?_closed known.1.1.2 next).2
      | none =>
          cases planned : waiting.plannedBefore with
          | false =>
              exact (S.replan_grounds now _).weaken fun known => ⟨known.1.1, dropped true⟩
          | true =>
              refine (S.exitHolds_any now).bind fun holds => ?_
              cases holds with
              | true =>
                  exact (S.leavePlan_grounds now _).weaken fun known => ⟨known.1.1.1, dropped true⟩
              | false =>
                  refine ((S.nextPass_grounds now).weaken fun known => known.1.1.1).bind
                    fun later => ?_
                  exact (S.replan_grounds later _).weaken fun known => ⟨known.2, dropped true⟩

private theorem pursue_grounds (a : Activation) (strategy : StrategyState)
    (previous : Option RunResult) :
    (S.traced.pursue a strategy previous).Grounds (Frame.module ⟨a, strategy⟩).Ground fun left =>
      (Frame.module left.1).Ground ∧ left.2.Ground := by
  cases strategy with
  | passes state =>
      refine ((S.resumePasses_grounds a state previous).weaken Frame.Ground.activation).bind
        fun left => Exec.grounds_pure fun known => ?_
      exact ⟨Frame.ground_module known.2.1 fun s member => absurd member List.not_mem_nil, known.2.2⟩
  | choices state =>
      refine ((S.resumeChoices_grounds a state previous).weaken Frame.Ground.activation).bind
        fun left => Exec.grounds_pure fun known => ?_
      exact ⟨Frame.ground_module known.2.1 fun s member => absurd member List.not_mem_nil, known.2.2⟩
  | plans state =>
      refine ((S.resumePlans_grounds a state previous).weaken fun ground =>
        ⟨ground.activation, fun step member => ?_⟩).bind fun left =>
          Exec.grounds_pure fun known => ⟨Frame.ground_module known.2.1.1 fun s member => ?_, known.2.1.2⟩
      · exact ground _ (List.mem_cons_of_mem _ (List.mem_map_of_mem member))
      · obtain ⟨step, inside, rfl⟩ := List.mem_map.mp member
        exact known.2.2 step inside

private theorem resumeModule_grounds (g : ModuleFrame) (previous : Option RunResult) :
    (S.traced.resumeModule g previous).Grounds (Frame.module g).Ground fun left =>
      (Frame.module left.1).Ground ∧ left.2.Ground := by
  unfold resumeModule
  split
  · exact S.pursue_grounds g.activation g.strategy previous
  · refine ((S.prepare_grounds g.activation).weaken Frame.Ground.activation).bind fun left => ?_
    obtain ⟨now, failure⟩ := left
    have ground (known : (Frame.module g).Ground ∧ now.substitution.IsClosed) :
        (Frame.module ⟨now, g.strategy⟩).Ground :=
      Frame.ground_module known.2 fun s member => known.1 s (List.mem_cons_of_mem _ member)
    cases failure with
    | some failure => exact Exec.grounds_pure fun known => ⟨ground known, trivial⟩
    | none => exact (S.pursue_grounds now g.strategy previous).weaken ground

/-- A frame that is resumed stays ground, and so are its children. -/
theorem resume_grounds (f : Frame) (previous : Option Completed) :
    (S.traced.resume f previous).Grounds f.Ground fun left => left.1.Ground ∧ left.2.Ground := by
  have withResult (result : Option RunResult) :
      (S.traced.resumeWith f result).Grounds f.Ground fun left =>
        left.1.Ground ∧ left.2.Ground := by
    cases f with
    | module g =>
        exact (S.resumeModule_grounds g result).bind fun _ => Exec.grounds_pure And.right
    | rule g => exact (S.resumeRule_grounds g result).bind fun _ => Exec.grounds_pure And.right
    | combo c =>
        exact Exec.grounds_pure fun ground =>
          ComboFrame.resume_ground (ground _ List.mem_cons_self) result
    | action x => exact (S.resumeAction_grounds x result).bind fun _ => Exec.grounds_pure And.right
    | hole => exact Exec.grounds_pure fun _ => ⟨Frame.ground_hole, trivial⟩
  unfold resume
  cases previous with
  | none => exact withResult none
  | some completed =>
      cases returned : completed.result with
      | error failure =>
          simp only [returned]
          exact Exec.grounds_pure fun ground => ⟨ground, trivial⟩
      | ok result =>
          simp only [returned]
          exact withResult (some result)

end Setting

end CognitiveAgent
