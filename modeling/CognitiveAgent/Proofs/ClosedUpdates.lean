import CognitiveAgent.Proofs.FocusBrackets
import CognitiveAgent.Proofs.GroundRuns

/-!
Terms that reach the bases. Every update of the mental state instantiates a term that the frame
declares. A mental action checks that its instance is closed, a user action checks its parameters
only, and a module checks nothing. Main statement: an update is closed if the variables of the
declared term are in the scope that these checks cover, and where they are not it may be open.
-/

set_option autoImplicit false

namespace CognitiveAgent

variable {σ ω : Type}

/-! ### Updates, declared terms and their scope -/

def Occurrence.evaluation? : Occurrence → Option Evaluation
  | .exchange (.evaluate _ _) (.ok evaluation) => some evaluation
  | _ => none

def Request.updated? : Request → Option Term
  | .insert term | .delete term | .adopt term | .drop term => some term
  | .evaluate .. | .hasGoals | .enterFocus .. | .exitFocus _ | .perform _ | .reward | .choose ..
  | .learn .. | .plan .. | .stopSignal => none

def updates (seen : List Occurrence) : List Term := (requests seen).filterMap Request.updated?

private theorem updates_alterations (seen : List Occurrence) :
    updates seen = (alterations seen).filterMap Request.updated? := by
  rw [updates, alterations, List.filterMap_filter]
  refine congrArg (fun read => (requests seen).filterMap read) (funext fun request => ?_)
  cases request <;> rfl

private theorem updates_eq_nil {seen : List Occurrence} (nothing : alterations seen = []) :
    updates seen = [] := by
  rw [updates_alterations, nothing]
  rfl

def Term.Within (t : Term) (names : List String) : Prop := ∀ x ∈ t.occurrences, x ∈ names

instance (t : Term) (names : List String) : Decidable (t.Within names) :=
  inferInstanceAs (Decidable (∀ x ∈ t.occurrences, x ∈ names))

namespace Frame

def declared : Frame → List Term
  | .module g => g.activation.module.beliefs ++ g.activation.module.goals
  | .action x =>
    match x.action with
    | .user a => a.post.map Effect.term
    | .mental a => a.updateTerm.toList
    | .call .. => []
  | .rule _ | .combo _ | .hole => []

/-- The variables whose values are sure to be closed once the frame makes an update: for a user
action those of its parameters, for a mental action all that it mentions, and for a module its
parameters, if it is named and has been called. -/
def scope (below : List Frame) : Frame → List String
  | .module g =>
    match below with
    | .action _ :: _ => if g.activation.module.anonymous then [] else g.activation.module.parameterVars
    | _ => []
  | .action x =>
    match x.action with
    | .user a => a.freeVars
    | .mental a => a.unbound
    | .call .. => []
  | .rule _ | .combo _ | .hole => []

end Frame

def evaluations (seen : List Occurrence) : List Evaluation := seen.filterMap Occurrence.evaluation?

/-- The bindings that a frame instantiates its declared terms with, as what occurs tells them: its
own, or for a user action with a precondition those extended by what is found out about it. -/
def Frame.bindings (seen : List Occurrence) : Frame → List Substitution
  | .module g => [g.activation.substitution]
  | .action x =>
    match x.action with
    | .mental _ => [x.substitution]
    | .user a =>
      if a.pre.isEmpty then [x.substitution]
      else (evaluations seen).filterMap (·.extend? x.substitution)
    | .call .. => []
  | .rule _ | .combo _ | .hole => []

def Outcome.Unbound (outcome : Outcome) (vars : List String) : Prop :=
  ∃ subject, outcome = .failed ⟨subject, .unboundVariables ("action " ++ subject) vars⟩

/-! ### Actions -/

namespace Setting

variable (S : Setting σ ω)

def CarriesOut (ground : UserAction) (outcome : Outcome) (asked : List Request) : Prop :=
  (ground.freeVars = [] ∧ asked <+: ground.post.map Effect.request) ∨
    (asked = [] ∧ outcome.Unbound ground.freeVars)

private theorem carryOut_carries (ground : UserAction) :
    (S.traced.carryOut ground).Logs fun outcome seen =>
      CarriesOut ground outcome (alterations seen) := by
  cases closed : ground.freeVars.isEmpty with
  | true =>
      have none := List.isEmpty_iff.mp closed
      refine (S.carryOut_asks ground).mono fun outcome seen asks => .inl ⟨none, ?_⟩
      rcases asks with nothing | ⟨_, begun⟩
      · rw [nothing]
        exact List.nil_prefix
      · exact begun
  | false =>
      unfold carryOut
      rw [closed]
      exact Exec.logs_pure (.inr ⟨rfl, _, rfl⟩)

private theorem carryOut_unevaluated (ground : UserAction) :
    (S.traced.carryOut ground).Only fun o => o.evaluation? = none := by
  have effects (all : List Effect) :
      (S.traced.applyEffects all).Only fun o => o.evaluation? = none := by
    induction all with
    | nil => exact Exec.only_pure _
    | cons effect rest ih =>
        cases effect with
        | insert belief | delete belief =>
            refine (S.ask_only fun _ => rfl).bind fun answer => ?_
            cases answer with
            | error fault => exact Exec.only_pure _
            | ok update => exact ih
  unfold carryOut
  split
  · refine (S.ask_only fun _ => rfl).bind fun answer => ?_
    cases answer with
    | error fault => exact Exec.only_pure _
    | ok granted =>
        refine (effects ground.post).bind fun answer => ?_
        cases answer with
        | error fault => exact Exec.only_pure _
        | ok done =>
            have told : (S.traced.emit .userAction ground.display ground.source "performed %s"
                [ground.display]).Only fun o => o.evaluation? = none :=
              S.note_only rfl
            exact told.bind fun _ => Exec.only_pure _
  · exact Exec.only_pure _

structure UserTurn (x : ActionFrame) (action : UserAction) (outcome : Outcome)
    (seen : List Occurrence) : Prop where
  runs : alterations seen = [] ∨ ∃ s, s ∈ (Frame.action x).bindings seen
  carries : ∀ s ∈ (Frame.action x).bindings seen,
    CarriesOut (action.apply s) outcome (alterations seen)

/-- Where a precondition has been evaluated, its answer tells the bindings. -/
theorem bindings_answered {x : ActionFrame} {action : UserAction} {told : Event}
    {answer : Except MentalFault Evaluation} {more : List Occurrence}
    (user : x.action = .user action) (guarded : action.pre.isEmpty = false)
    (quiet : ∀ o ∈ more, o.evaluation? = none) :
    (Frame.action x).bindings
        ([.event told, .exchange (.evaluate action.pre x.substitution) answer] ++ more) =
      (answer.toOption.bind (·.extend? x.substitution)).toList := by
  have none : more.filterMap Occurrence.evaluation? = [] := List.filterMap_eq_nil_iff.mpr quiet
  have all : evaluations
      ([.event told, .exchange (.evaluate action.pre x.substitution) answer] ++ more) =
        answer.toOption.toList := by
    rw [evaluations, List.filterMap_append, none, List.append_nil]
    cases answer <;> rfl
  simp only [Frame.bindings, user, guarded, all]
  cases answer with
  | error fault => rfl
  | ok e => cases extended : e.extend? x.substitution <;> simp [Except.toOption, extended]

private theorem emit_event (channel : Channel) (subject : String) (source : Option Location)
    (template : String) (arguments : List String) :
    (S.traced.emit channel subject source template arguments).Logs fun _ seen =>
      ∃ told, seen = [.event told] :=
  S.note_logs ⟨_, rfl⟩

private theorem userBindings_asks (action : UserAction) (substitution : Substitution) :
    (S.traced.userBindings action substitution).Logs fun found seen =>
      (action.pre.isEmpty = true ∧ found = .ok (some substitution) ∧ seen = []) ∨
      (action.pre.isEmpty = false ∧ ∃ told answer,
        seen = [.event told, .exchange (.evaluate action.pre substitution) answer] ∧
        found = answer.map (·.extend? substitution)) := by
  unfold userBindings
  cases guarded : action.pre.isEmpty with
  | true => exact Exec.logs_pure (.inl ⟨rfl, rfl, rfl⟩)
  | false =>
      refine Exec.Logs.bind (S.emit_event _ _ _ _ _) fun _ seen event => ?_
      obtain ⟨told, rfl⟩ := event
      refine S.ask_bind fun answer => ?_
      cases answer <;> exact Exec.logs_pure (.inr ⟨rfl, told, _, rfl, rfl⟩)

private theorem performUser_turns {x : ActionFrame} {action : UserAction}
    (user : x.action = .user action) :
    (S.traced.performUser action x.substitution).Logs (UserTurn x action) := by
  have none (o : Occurrence) (member : o ∈ []) : o.evaluation? = none :=
    absurd member List.not_mem_nil
  unfold performUser
  refine (S.userBindings_asks action x.substitution).bind fun found seen asked => ?_
  rcases asked with ⟨always, rfl, rfl⟩ | ⟨guarded, told, answer, rfl, rfl⟩
  · refine (S.carryOut_carries (action.apply x.substitution)).mono fun outcome seen carries => ?_
    have own : (Frame.action x).bindings ([] ++ seen) = [x.substitution] := by
      simp [Frame.bindings, user, always]
    constructor
    · rw [own]
      exact .inr ⟨_, List.mem_singleton_self _⟩
    · rw [own]
      intro s member
      rw [List.mem_singleton.mp member]
      exact carries
  · cases answer with
    | error fault =>
        refine Exec.logs_pure ⟨.inl rfl, ?_⟩
        rw [bindings_answered user guarded none]
        exact fun s member => absurd member List.not_mem_nil
    | ok e =>
        dsimp only [Except.map]
        cases extended : e.extend? x.substitution with
        | none =>
            refine Exec.logs_pure ⟨.inl rfl, ?_⟩
            rw [bindings_answered user guarded none, Except.toOption, Option.bind_some, extended]
            exact fun s member => absurd member List.not_mem_nil
        | some bindings =>
            -- Nothing more is evaluated, so the bindings can be told from what has occurred.
            refine Exec.Logs.mono ((S.carryOut_carries (action.apply bindings)).and
              (S.carryOut_unevaluated (action.apply bindings))) fun outcome more here => ?_
            have own : (Frame.action x).bindings ([.event told,
                .exchange (.evaluate action.pre x.substitution) (.ok e)] ++ more) = [bindings] := by
              rw [bindings_answered user guarded here.2, Except.toOption, Option.bind_some, extended]
              rfl
            constructor
            · rw [own]
              exact .inr ⟨_, List.mem_singleton_self _⟩
            · rw [own]
              intro s member
              rw [List.mem_singleton.mp member, alterations_append]
              exact here.1

private theorem performMental_turns (action : MentalAction) :
    (S.traced.performMental action).Logs fun outcome seen =>
      (action.unbound = [] ∧ updates seen ⊆ action.updateTerm.toList) ∨
        (updates seen = [] ∧ outcome.Unbound action.unbound) := by
  unfold performMental
  split
  · rename_i isClosed
    have closed := List.isEmpty_iff.mp isClosed
    have same : action.request?.toList.filterMap Request.updated? = action.updateTerm.toList := by
      cases action <;> rfl
    refine (S.mentalResult_asks action).bind fun answer seen asked => ?_
    have updated : updates seen ⊆ action.updateTerm.toList := by
      rw [updates_alterations, asked, same]
      exact List.Subset.refl _
    cases answer with
    | error fault =>
        refine Exec.logs_pure (.inl ⟨closed, ?_⟩)
        rw [List.append_nil]
        exact updated
    | ok result =>
        refine Exec.Logs.bind (S.emit_event _ _ _ _ _) fun _ more event => ?_
        obtain ⟨told, rfl⟩ := event
        refine Exec.logs_pure (.inl ⟨closed, ?_⟩)
        rw [List.append_nil, updates, requests_append, requests_event, requests_nil, List.append_nil]
        exact updated
  · exact Exec.logs_pure (.inr ⟨rfl, _, rfl⟩)

end Setting

/-! ### What a turn instantiates -/

namespace Frame

/-- Each update instantiates a declared term, and is closed if the term is in scope. -/
def InstantiatesClosed (top : Frame) (below : List Frame) (seen : List Occurrence) : Prop :=
  ∀ t ∈ updates seen, ∃ d ∈ top.declared, ∃ s ∈ top.bindings seen, t = d.apply s ∧
    (d.Within (top.scope below) → t.isClosed = true)

/-- A declared term in scope that has no closed instance keeps the frame from all updates. It fails
for want of the variables. -/
def RefusesOpen (top : Frame) (below : List Frame) (outcome : Outcome) (seen : List Occurrence) :
    Prop :=
  ∀ d ∈ top.declared, d.Within (top.scope below) → ∀ s ∈ top.bindings seen,
    (d.apply s).isClosed = false →
      updates seen = [] ∧ ∃ vars, outcome.Unbound vars ∧ (d.apply s).freeVars ⊆ vars

end Frame

private theorem exists_update {seen : List Occurrence} {t : Term} (member : t ∈ updates seen) :
    ∃ request ∈ alterations seen, request.updated? = some t := by
  rw [updates_alterations] at member
  exact List.mem_filterMap.mp member

/-- What is open in an instance of a term in scope is open in the instances of the parameters. -/
theorem UserAction.mem_freeVars_apply {action : UserAction} {d : Term}
    (within : d.Within action.freeVars) {s : Substitution} {v : String}
    (member : v ∈ (d.apply s).occurrences) : v ∈ (action.apply s).freeVars := by
  obtain ⟨y, occurs, value⟩ := (Term.mem_occurrences_subst _ d).mp member
  obtain ⟨param, own, here⟩ := Term.mem_freeVarsAll.mp (within y occurs)
  refine Term.mem_freeVarsAll.mpr ⟨param.apply s, List.mem_map_of_mem own, ?_⟩
  exact (Term.mem_occurrences_subst _ param).mpr ⟨y, here, value⟩

private theorem UserAction.isClosed_apply {action : UserAction} {d : Term}
    (within : d.Within action.freeVars)
    {s : Substitution} (closed : (action.apply s).freeVars = []) : (d.apply s).isClosed = true := by
  rw [Term.isClosed_iff_not_mem]
  intro v member
  have impossible := mem_freeVars_apply within member
  rw [closed] at impossible
  cases impossible

section Actions

variable {x : ActionFrame} {outcome : Outcome} {seen : List Occurrence} (below : List Frame)

theorem Setting.UserTurn.instantiates {action : UserAction} (user : x.action = .user action)
    (turn : UserTurn x action outcome seen) : (Frame.action x).InstantiatesClosed below seen := by
  intro t member
  obtain ⟨request, asked, updated⟩ := exists_update member
  obtain ⟨s, runs⟩ := turn.runs.resolve_left (List.ne_nil_of_mem asked)
  rcases turn.carries s runs with ⟨closed, begun⟩ | ⟨nothing, _⟩
  · obtain ⟨instanced, planned, rfl⟩ := List.mem_map.mp (begun.subset asked)
    obtain ⟨effect, own, rfl⟩ := List.mem_map.mp planned
    have same : t = effect.term.apply s := by
      cases effect <;> exact (Option.some.inj updated).symm
    refine ⟨effect.term, ?_, s, runs, same, fun within => ?_⟩
    · rw [Frame.declared, user]
      exact List.mem_map_of_mem own
    · rw [Frame.scope, user] at within
      rw [same]
      exact UserAction.isClosed_apply within closed
  · rw [nothing] at asked
    cases asked

theorem Setting.UserTurn.refuses {action : UserAction} (user : x.action = .user action)
    (turn : UserTurn x action outcome seen) : (Frame.action x).RefusesOpen below outcome seen := by
  intro d _ within s runs isOpen
  rw [Frame.scope, user] at within
  rcases turn.carries s runs with ⟨closed, _⟩ | ⟨nothing, unbound⟩
  · rw [UserAction.isClosed_apply within closed] at isOpen
    cases isOpen
  · refine ⟨updates_eq_nil nothing, _, unbound, fun v member => ?_⟩
    exact UserAction.mem_freeVars_apply within (Term.mem_freeVars.mp member)

private theorem MentalAction.updateTerm_apply (action : MentalAction) (s : Substitution) :
    (action.apply s).updateTerm = action.updateTerm.map (·.apply s) := by
  cases action <;> rfl

private theorem MentalAction.unbound_of_updateTerm {action : MentalAction} {t : Term}
    (updates : t ∈ action.updateTerm.toList) : action.unbound = t.freeVars := by
  rw [MentalAction.unbound, Option.mem_toList.mp updates]

/-- A mental action is in scope of its own check. -/
theorem mental_turn {action : MentalAction} (mental : x.action = .mental action)
    (turn : ((action.apply x.substitution).unbound = [] ∧
        updates seen ⊆ (action.apply x.substitution).updateTerm.toList) ∨
      (updates seen = [] ∧ outcome.Unbound (action.apply x.substitution).unbound)) :
    (Frame.action x).InstantiatesClosed below seen ∧
      (Frame.action x).RefusesOpen below outcome seen := by
  have declared : (Frame.action x).declared = action.updateTerm.toList := by
    rw [Frame.declared, mental]
  have bindings : (Frame.action x).bindings seen = [x.substitution] := by
    simp [Frame.bindings, mental]
  have instanced {d : Term} (own : d ∈ action.updateTerm.toList) :
      d.apply x.substitution ∈ (action.apply x.substitution).updateTerm.toList := by
    rw [MentalAction.updateTerm_apply, Option.mem_toList, Option.mem_toList.mp own]
    rfl
  constructor
  · intro t member
    rcases turn with ⟨closed, within⟩ | ⟨nothing, _⟩
    · have updated := within member
      have term := Option.mem_toList.mp updated
      rw [MentalAction.updateTerm_apply] at term
      obtain ⟨d, own, same⟩ := Option.map_eq_some_iff.mp term
      refine ⟨d, ?_, x.substitution, ?_, same.symm, fun _ => ?_⟩
      · rw [declared]
        exact Option.mem_toList.mpr own
      · rw [bindings]
        exact List.mem_singleton_self _
      · rw [MentalAction.unbound_of_updateTerm updated] at closed
        exact Term.isClosed_iff_freeVars.mpr closed
    · rw [nothing] at member
      cases member
  · intro d own _ s runs isOpen
    rw [declared] at own
    rw [bindings] at runs
    rw [List.mem_singleton.mp runs] at isOpen ⊢
    have unbound := MentalAction.unbound_of_updateTerm (instanced own)
    rcases turn with ⟨closed, _⟩ | ⟨nothing, refused⟩
    · rw [unbound] at closed
      rw [Term.isClosed_iff_freeVars.mpr closed] at isOpen
      cases isOpen
    · refine ⟨nothing, _, refused, ?_⟩
      rw [unbound]
      exact List.Subset.refl _

private theorem instantiates_of_nothing {top : Frame} (nothing : updates seen = []) :
    top.InstantiatesClosed below seen := by
  intro t member
  rw [nothing] at member
  cases member

private theorem refuses_of_undeclared {top : Frame} (nothing : top.declared = []) :
    top.RefusesOpen below outcome seen := by
  intro d member
  rw [nothing] at member
  cases member

end Actions

/-! ### Modules -/

/-- What is in scope of a module has closed instances. -/
theorem Setting.Nested.scope_closed {S : Setting σ ω} {g : ModuleFrame} {below : List Frame}
    (nested : S.Nested (.module g :: below)) {d : Term}
    (within : d.Within ((Frame.module g).scope below)) :
    (d.apply g.activation.substitution).isClosed = true := by
  have unscoped (none : (Frame.module g).scope below = []) :
      (d.apply g.activation.substitution).isClosed = true := by
    rw [none] at within
    have closed : d.isClosed = true :=
      Term.isClosed_iff_not_mem.mpr fun v occurs => absurd (within v occurs) List.not_mem_nil
    rw [Term.apply_of_closed closed]
    exact closed
  match below with
  | [] | .module _ :: _ | .rule _ :: _ | .combo _ :: _ | .hole :: _ => exact unscoped rfl
  | .action x :: lower =>
      cases named : g.activation.module.anonymous with
      | true =>
          refine unscoped ?_
          rw [Frame.scope, named]
          rfl
      | false =>
          rw [Frame.scope, named] at within
          obtain ⟨closed, exactly⟩ := nested.parameters named
          rw [Term.isClosed_iff_not_mem]
          intro v member
          obtain ⟨occurs, unbound⟩ := (Substitution.mem_occurrences_apply closed).mp member
          exact unbound ((exactly v).mpr (within v occurs))

private theorem Activation.updated_furnishing {a : Activation} {request : Request} {t : Term}
    (member : request ∈ a.furnishing) (updated : request.updated? = some t) :
    ∃ d ∈ a.module.beliefs ++ a.module.goals, t = d.apply a.substitution := by
  simp only [furnishing, List.mem_append, List.mem_map] at member
  rcases member with (focus | ⟨belief, own, rfl⟩) | ⟨goal, own, rfl⟩
  · split at focus
    · cases focus
    · rw [List.mem_singleton.mp focus] at updated
      cases updated
  · exact ⟨belief, List.mem_append_left _ own, (Option.some.inj updated).symm⟩
  · exact ⟨goal, List.mem_append_right _ own, (Option.some.inj updated).symm⟩

theorem Outcome.Closes.updates {outcome : Outcome} {m : Module} {seen : List Occurrence}
    (closes : outcome.Closes m (alterations seen)) : updates seen = [] := by
  have within : alterations seen ⊆ m.closing := by
    cases outcome with
    | yield children =>
        rw [show alterations seen = [] from closes]
        exact List.nil_subset _
    | done result =>
        rw [show alterations seen = m.closing from closes]
        exact List.Subset.refl _
    | failed failure => exact List.IsPrefix.subset closes
  rw [updates_alterations, List.filterMap_eq_nil_iff]
  intro request member
  have closing := within member
  unfold Module.closing at closing
  split at closing
  · cases closing
  · rw [List.mem_singleton.mp closing]
    rfl

theorem Setting.ModuleAsks.instantiates {S : Setting σ ω} {g : ModuleFrame} {outcome : Outcome}
    {seen : List Occurrence} {below : List Frame} (asks : ModuleAsks g outcome seen)
    (nested : S.Nested (.module g :: below)) :
    (Frame.module g).InstantiatesClosed below seen := by
  intro t member
  have furnished : ∃ request ∈ g.activation.furnishing, request.updated? = some t := by
    cases asks with
    | refused _ begun =>
        obtain ⟨request, asked, updated⟩ := List.mem_filterMap.mp member
        exact ⟨request, begun.subset asked, updated⟩
    | @pursues _ entry rest furnished closes =>
        have none := closes.updates
        rw [updates] at none member
        rw [requests_append, List.filterMap_append, none, List.append_nil, furnished] at member
        obtain ⟨request, asked, updated⟩ := List.mem_filterMap.mp member
        split at asked
        · cases asked
        · exact ⟨request, asked, updated⟩
  obtain ⟨request, asked, updated⟩ := furnished
  obtain ⟨d, own, rfl⟩ := Activation.updated_furnishing asked updated
  exact ⟨d, own, _, List.mem_singleton_self _, rfl, nested.scope_closed⟩

theorem Setting.Nested.refuses {S : Setting σ ω} {g : ModuleFrame} {outcome : Outcome}
    {seen : List Occurrence} {below : List Frame} (nested : S.Nested (.module g :: below)) :
    (Frame.module g).RefusesOpen below outcome seen := by
  intro d _ within s runs isOpen
  rw [List.mem_singleton.mp runs, nested.scope_closed within] at isOpen
  cases isOpen

/-! ### Turns -/

namespace Setting

variable (S : Setting σ ω)

private theorem resumeAction_turns (x : ActionFrame) (previous : Option RunResult)
    (below : List Frame) :
    (S.traced.resumeAction x previous).Logs fun left seen =>
      (Frame.action x).InstantiatesClosed below seen ∧
        (x.called = none → (Frame.action x).RefusesOpen below left.2 seen) := by
  unfold resumeAction
  split
  · rename_i called
    refine Exec.logs_pure ⟨instantiates_of_nothing below rfl, fun uncalled => ?_⟩
    rw [called] at uncalled
    cases uncalled
  · split
    · rename_i action user
      refine Exec.Logs.map ((S.performUser_turns user).mono fun outcome seen turn => ?_)
      exact ⟨turn.instantiates below user, fun _ => turn.refuses below user⟩
    · rename_i action mental
      refine Exec.Logs.map ((S.performMental_turns _).mono fun outcome seen turn => ?_)
      have both := mental_turn below mental turn
      exact ⟨both.1, fun _ => both.2⟩
    · rename_i target params source call
      have undeclared : (Frame.action x).declared = [] := by rw [Frame.declared, call]
      have refuses (outcome : Outcome) (seen : List Occurrence) :
          x.called = none → (Frame.action x).RefusesOpen below outcome seen :=
        fun _ => refuses_of_undeclared below undeclared
      unfold expandCall
      split
      · exact Exec.logs_pure ⟨instantiates_of_nothing below rfl, refuses _ _⟩
      · split
        · exact Exec.logs_pure ⟨instantiates_of_nothing below rfl, refuses _ _⟩
        · refine Exec.Logs.bind (S.emit_event _ _ _ _ _) fun _ seen event => Exec.logs_pure ?_
          obtain ⟨told, rfl⟩ := event
          exact ⟨instantiates_of_nothing below rfl, refuses _ _⟩

/-- An action that has called a module is a call. -/
theorem Routed.called {S : Setting σ ω} {stack : CallStack} {x : ActionFrame} {below : List Frame}
    (routed : S.Routed stack) (frames : stack.frames = .action x :: below) :
    x.called = none ∨ (Frame.action x).declared = [] := by
  cases routed with
  | ready nested idle =>
      obtain ⟨rfl, rfl⟩ := List.cons.inj frames
      exact .inl (Option.isNone_iff_eq_none.mp (Option.isSome_eq_false_iff.mp idle))
  | @returned g child rest holes left completed nested awaits bound =>
      cases left with
      | succ left => cases frames
      | zero =>
          obtain ⟨rfl, rfl⟩ := List.cons.inj frames
          cases awaits with
          | module isCall => exact .inr (by rw [Frame.declared, isCall])
  | finished completed => cases frames

end Setting

namespace History

variable {H : History σ ω} {n : Nat} {f later : Frame} {below : List Frame} {outcome : Outcome}

theorem Resumes.updates (resumes : H.Resumes n f below later outcome)
    (routed : H.setting.Routed (H.stack n)) :
    f.InstantiatesClosed below (H.occurrences n) ∧
      ((H.stack n).failed = false → f.RefusesOpen below outcome (H.occurrences n)) := by
  cases failed : (H.stack n).failed with
  | true =>
      -- A failure is passed on before the frame gets its turn.
      rw [resumes.silent failed]
      exact ⟨instantiates_of_nothing below rfl, fun clean => Bool.noConfusion clean⟩
  | false =>
      have asks := resumes.asks failed
      have quiet (nothing : alterations (H.occurrences n) = []) (undeclared : f.declared = []) :
          f.InstantiatesClosed below (H.occurrences n) ∧
            (false = false → f.RefusesOpen below outcome (H.occurrences n)) :=
        ⟨instantiates_of_nothing below (updates_eq_nil nothing),
          fun _ => refuses_of_undeclared below undeclared⟩
      cases f with
      | rule g | combo c | hole => exact quiet asks rfl
      | module g =>
          have nested := routed.nested resumes.frames Frame.noConfusion
          exact ⟨Setting.ModuleAsks.instantiates asks nested, fun _ => nested.refuses⟩
      | action x =>
          have logs : (H.setting.traced.resume (.action x) (H.stack n).previous).Logs
              fun left seen => (Frame.action x).InstantiatesClosed below seen ∧
                (x.called = none → (Frame.action x).RefusesOpen below left.2 seen) := by
            rw [Setting.resume_given _ _ failed]
            exact (H.setting.resumeAction_turns x _ below).map
          obtain ⟨instantiates, refuses⟩ := resumes.occurs logs
          refine ⟨instantiates, fun _ => ?_⟩
          rcases routed.called resumes.frames with uncalled | undeclared
          · exact refuses uncalled
          · exact refuses_of_undeclared below undeclared

def ClosesUpdates (H : History σ ω) (n : Nat) : Prop :=
  ∀ f below later outcome, H.Resumes n f below later outcome →
    f.InstantiatesClosed below (H.occurrences n) ∧
      ((H.stack n).failed = false → f.RefusesOpen below outcome (H.occurrences n))

end History

/-- In every turn of a fresh module frame, and in every step of an agent, each update instantiates a
declared term of the frame on top. It is closed if the variables of the term are in scope, and an
instance in scope that is not closed is refused before any update. -/
theorem closed_updates (S : Setting σ ω) (situation : Situation σ ω) (n : Nat) :
    (∀ f : ModuleFrame, f.Fresh → (History.ofModule S f situation).ClosesUpdates n) ∧
    ((⟨S, .start, situation⟩ : Life σ ω).pop n).ClosesUpdates 0 := by
  constructor
  · intro f fresh top below later outcome resumes
    exact resumes.updates (History.ofModule_routed S fresh situation n)
  · intro top below later outcome resumes
    let L : Life σ ω := ⟨S, .start, situation⟩
    have busy : ((L.agent n).poised S.program).stack.isEmpty = false := by
      rw [CallStack.isEmpty, List.isEmpty_eq_false_iff]
      intro empty
      have frames : ((L.agent n).poised S.program).stack.frames = top :: below := resumes.frames
      rw [empty] at frames
      cases frames
    obtain ⟨m, f, spans⟩ := Life.exists_spans (L := L) rfl busy
    have time : m + (n - m) = n := Nat.add_sub_cancel' spans.ordered
    have routed := History.ofModule_routed S spans.fresh (L.situation m) (n - m)
    rw [spans.stack (Nat.le_of_eq time), time] at routed
    exact resumes.updates routed

def going : ModuleFrame :=
  let place (name : String) (term : Term) : Term := .compound name [term]
  let go : Action := .user
    { name := "go", params := [.var "X"],
      post := [.insert (place "visited" (.var "X")), .delete (place "at" (.var "X"))] }
  .start { Module.ofName "errand" with
    rules := [.ofKind .ifThen (.belief (place "at" (.var "X")))
      [go, .insert (place "seen" (.var "Y"))]] } .empty none none

def errand : History Simulation.World Simulation.Trace :=
  .ofModule (Simulation.setting ⟨[], none, none, none, none⟩ .linear false) going
    (Simulation.situation { mind := { beliefs := [.compound "at" [.atom "home"]] } }
      ⟨Vector.replicate 8 0, 0⟩)

/-- Both effects mention the action's parameter only, and both are closed. The mental action that
comes next has an open instance, so it fails and updates nothing. -/
theorem closed_updates_of_errand :
    going.Fresh ∧
    (∃ f below later outcome, errand.Resumes 3 f below later outcome ∧
      (∀ d ∈ f.declared, d.Within (f.scope below)) ∧ (updates (errand.occurrences 3)).length = 2 ∧
      ∀ t ∈ updates (errand.occurrences 3), t.isClosed = true) ∧
    ∃ f below later outcome, errand.Resumes 5 f below later outcome ∧
      (errand.stack 5).failed = false ∧ ∃ d ∈ f.declared, d.Within (f.scope below) ∧
        ∃ s ∈ f.bindings (errand.occurrences 5), (d.apply s).isClosed = false ∧
          updates (errand.occurrences 5) = [] ∧
          ∃ vars, outcome.Unbound vars ∧ (d.apply s).freeVars ⊆ vars := by
  have fresh : going.Fresh := .start _ _ _ _
  have turn (n : Nat) : errand.ClosesUpdates n :=
    (closed_updates errand.setting errand.initial n).1 going fresh
  refine ⟨fresh, ?_, ?_⟩
  · have covered : (errand.stack 3).frames.head?.any (fun f =>
        f.declared.all fun d => d.Within (f.scope (errand.stack 3).frames.tail)) = true := by
      decide +kernel
    cases frames : (errand.stack 3).frames with
    | nil => rw [frames] at covered; cases covered
    | cons f below =>
        rw [frames] at covered
        have within : ∀ d ∈ f.declared, d.Within (f.scope below) := fun d own =>
          of_decide_eq_true (List.all_eq_true.mp covered d own)
        obtain ⟨later, outcome, resumes⟩ := History.exists_resumes frames
        refine ⟨f, below, later, outcome, resumes, within, by decide +kernel, fun t member => ?_⟩
        obtain ⟨d, own, s, _, _, closed⟩ := (turn 3 f below later outcome resumes).1 t member
        exact closed (within d own)
  · have clean : (errand.stack 5).failed = false := by decide +kernel
    have speaks : (errand.stack 5).frames.head?.any (fun f => f.declared.any fun d =>
        d.Within (f.scope (errand.stack 5).frames.tail) &&
          (f.bindings (errand.occurrences 5)).any fun s => !(d.apply s).isClosed) = true := by
      decide +kernel
    cases frames : (errand.stack 5).frames with
    | nil => rw [frames] at speaks; cases speaks
    | cons f below =>
        rw [frames] at speaks
        obtain ⟨later, outcome, resumes⟩ := History.exists_resumes frames
        obtain ⟨d, declared, found⟩ := List.any_eq_true.mp speaks
        obtain ⟨isWithin, instanced⟩ := Bool.and_eq_true_iff.mp found
        obtain ⟨s, bound, negated⟩ := List.any_eq_true.mp instanced
        have within : d.Within (f.scope below) := of_decide_eq_true isWithin
        have isOpen : (d.apply s).isClosed = false := by simpa using negated
        refine ⟨f, below, later, outcome, resumes, clean, d, declared, within, s, bound, isOpen, ?_⟩
        exact (turn 5 f below later outcome resumes).2 clean d declared within s bound isOpen

/-- An action without parameters, whose effect mentions a variable. -/
def careless : ModuleFrame :=
  let act : Action := .user { name := "act", post := [.insert (.compound "p" [.var "X"])] }
  .start { Module.ofName "main" with rules := [.ofKind .ifThen .always [act]] } .empty none none

def presuming : ModuleFrame :=
  .start { Module.ofName "main" with beliefs := [.compound "p" [.var "X"]] } .empty none none

/-- Out of scope, an open term is inserted and nothing fails: as the effect of a user action, and
as a belief that a module declares. -/
theorem open_updates :
    let S := Simulation.setting ⟨[], none, none, none, none⟩ .linear false
    let situation := Simulation.situation {} ⟨Vector.replicate 8 0, 0⟩
    (∃ t ∈ updates ((History.ofModule S careless situation).occurrences 3), t.isClosed = false) ∧
    ((History.ofModule S careless situation).stack 4).failed = false ∧
    (∃ t ∈ updates ((History.ofModule S presuming situation).occurrences 0), t.isClosed = false) ∧
    ((History.ofModule S presuming situation).stack 1).failed = false := by
  decide +kernel

end CognitiveAgent
