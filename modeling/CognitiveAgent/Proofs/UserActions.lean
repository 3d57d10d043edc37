import CognitiveAgent.Proofs.Attempts
import CognitiveAgent.Proofs.ClosedUpdates

/-!
Performing user actions. A precondition may bind further variables; then the parameters are checked,
the environment is asked, and the effects are brought about one by one. Each of these may end the
action. Main statement: an action returns unless a variable reaches itself in its bindings, whatever
the world answers. What occurs then is one of a few courses, in which the environment is asked once
at most, and only about closed parameters, and in which effects come only after it has agreed.
-/

set_option autoImplicit false

namespace CognitiveAgent

variable {σ ω : Type}

/-! ### The world in the course of what occurs -/

/-- What occurs leads from one world to the other: every answer is the one that the world gives at
that point, and only exchanges change the world. -/
inductive Setting.Unfolds (S : Setting σ ω) (start : σ) : List Occurrence → σ → Prop where
  | nothing : S.Unfolds start [] start
  | exchange {seen : List Occurrence} {world : σ} (before : S.Unfolds start seen world)
      (request : Request) :
      S.Unfolds start (seen ++ [.exchange request (S.respond request world).1])
        (S.respond request world).2
  | event {seen : List Occurrence} {world : σ} (before : S.Unfolds start seen world) (e : Event) :
      S.Unfolds start (seen ++ [.event e]) world
  | logged {seen : List Occurrence} {world : σ} (before : S.Unfolds start seen world) (t : Term) :
      S.Unfolds start (seen ++ [.logged t]) world

namespace Setting

variable (S : Setting σ ω)

private theorem converses_unfolds (start : σ) :
    S.traced.Converses S.traced fun s t => s = t ∧ S.Unfolds start s.record s.world where
  program := rfl
  defaultOrder := rfl
  ask := by
    rintro request s _ ⟨rfl, before⟩
    exact ⟨rfl, rfl, before.exchange request⟩
  tell := by
    rintro event s _ ⟨rfl, before⟩
    exact ⟨rfl, rfl, before.event event⟩
  log := by
    rintro term s _ ⟨rfl, before⟩
    exact ⟨rfl, rfl, before.logged term⟩

private theorem performUser_unfolds (action : UserAction) (s : Substitution)
    (situation : Situation σ ω) :
    S.Unfolds situation.world (S.traced.performUser action s situation.unseen).2.record
      (S.performUser action s situation).2.world := by
  have unfolds := (S.converses_unfolds situation.world).performUser action s situation.unseen _
    ⟨rfl, .nothing⟩
  have alike := (S.mirrors_traced.toConverses.performUser action s _ _ situation.alike_unseen).2
  rw [alike.world]
  exact unfolds.2.2

end Setting

/-! ### Preconditions -/

namespace Evaluation

/-- The condition holds and lets an action go on with these bindings: its own if there are no
answers, and otherwise these merged with the first answer that fits them. -/
inductive Grants (e : Evaluation) (s : Substitution) : Substitution → Prop where
  | unanswered (holds : e.holds = true) (nothing : e.answers = []) : Grants e s s
  | fits {earlier later : List Substitution} {answer bindings : Substitution}
      (holds : e.holds = true) (split : e.answers = earlier ++ answer :: later)
      (conflicts : ∀ other ∈ earlier, s.combine other = none)
      (merged : s.combine answer = some bindings) : Grants e s bindings

def Denies (e : Evaluation) (s : Substitution) : Prop :=
  e.holds = false ∨ e.answers ≠ [] ∧ ∀ answer ∈ e.answers, s.combine answer = none

variable {e : Evaluation} {s bindings : Substitution}

private theorem grants_of_extend? (extended : e.extend? s = some bindings) :
    e.Grants s bindings := by
  unfold extend? at extended
  split at extended
  · rename_i holds
    split at extended
    · rename_i nothing
      cases extended
      exact .unanswered holds nothing
    · obtain ⟨earlier, answer, later, split, merged, conflicts⟩ :=
        List.findSome?_eq_some_iff.mp extended
      exact .fits holds split conflicts merged
  · cases extended

private theorem denies_of_extend? (extended : e.extend? s = none) : e.Denies s := by
  unfold extend? at extended
  split at extended
  · split at extended
    · cases extended
    · rename_i several
      exact .inr ⟨several, List.findSome?_eq_none_iff.mp extended⟩
  · rename_i fails
    exact .inl (Bool.eq_false_iff.mpr fails)

end Evaluation

/-! ### Effects -/

namespace Effect

def answered (effect : Effect) (answer : Except MentalFault Update) : Occurrence :=
  match effect with
  | .insert belief => .exchange (.insert belief) answer
  | .delete belief => .exchange (.delete belief) answer

inductive Granted : List Effect → List Occurrence → Prop where
  | nil : Granted [] []
  | cons (effect : Effect) (update : Update) {rest : List Effect} {seen : List Occurrence}
      (later : Granted rest seen) :
      Granted (effect :: rest) (effect.answered (.ok update) :: seen)

end Effect

private theorem Setting.applyEffects_logs (S : Setting σ ω) (effects : List Effect)
    (s : Substitution) :
    (S.traced.applyEffects (effects.map (·.apply s))).Logs fun answer seen =>
      (answer = .ok () ∧ Effect.Granted (effects.map (·.apply s)) seen) ∨
      ∃ done refused rest fault granted, effects = done ++ refused :: rest ∧
        answer = .error fault ∧ Effect.Granted (done.map (·.apply s)) granted ∧
        seen = granted ++ [(refused.apply s).answered (.error fault)] := by
  induction effects with
  | nil => exact Exec.logs_pure (.inl ⟨rfl, .nil⟩)
  | cons effect rest ih =>
      cases effect with
      | insert belief | delete belief =>
          apply S.ask_bind
          intro answer
          cases answer with
          | error fault =>
              exact Exec.logs_pure (.inr ⟨[], _, rest, fault, [], rfl, rfl, .nil, rfl⟩)
          | ok update =>
              apply ih.mono
              rintro answer seen
                (⟨granted, all⟩ | ⟨done, refused, left, fault, granted, rfl, failed, some, rfl⟩)
              · exact .inl ⟨granted, .cons _ update all⟩
              · exact .inr ⟨_ :: done, refused, left, fault, _ :: granted, rfl, failed,
                  .cons _ update some, rfl⟩

/-! ### Courses -/

namespace UserAction

variable (action : UserAction) (s : Substitution)

def inquiry : Event :=
  { channel := .actionPrecondition
    subject := action.display
    source := action.source
    template := "evaluating precondition %s of %s"
    arguments := [(action.pre.apply s).display, action.display] }

def accomplishment : Event :=
  { channel := .userAction
    subject := action.display
    source := action.source
    template := "performed %s"
    arguments := [action.display] }

/-- The bindings under which the action goes on, and what occurs until they are known. -/
inductive Binds : List Occurrence → Substitution → Prop where
  | unguarded (always : action.pre.literals = []) : Binds [] s
  | guarded {e : Evaluation} {bindings : Substitution} (guarded : action.pre.literals ≠ [])
      (grants : e.Grants s bindings) :
      Binds [.event (action.inquiry s), .exchange (.evaluate action.pre s) (.ok e)] bindings

/-- All that may occur when the action is performed under bindings, with what it comes to. -/
inductive Course : List Occurrence → Outcome → Prop where
  | unevaluated {fault : MentalFault} (guarded : action.pre.literals ≠ []) :
      Course [.event (action.inquiry s), .exchange (.evaluate action.pre s) (.error fault)]
        (.failed ⟨action.display, .mental fault⟩)
  | skipped {e : Evaluation} (guarded : action.pre.literals ≠ []) (denies : e.Denies s) :
      Course [.event (action.inquiry s), .exchange (.evaluate action.pre s) (.ok e)] (.done .start)
  | unbound {asked : List Occurrence} {bindings : Substitution}
      (binds : action.Binds s asked bindings)
      (isOpen : ∃ t ∈ action.params, (t.apply bindings).isClosed = false) :
      Course asked (.failed ⟨(action.apply bindings).display,
        .unboundVariables ("action " ++ (action.apply bindings).display)
          (Term.freeVarsAll (action.params.map (·.apply bindings)))⟩)
  | rejected {asked : List Occurrence} {bindings : Substitution} {fault : EnvironmentFault}
      (binds : action.Binds s asked bindings)
      (closed : ∀ t ∈ action.params, (t.apply bindings).isClosed = true) :
      Course (asked ++ [.exchange (.perform (action.apply bindings)) (.error fault)])
        (.failed ⟨(action.apply bindings).display, .environment fault⟩)
  -- The environment agrees, and an effect is refused after some that have been granted.
  | halted {asked granted : List Occurrence} {bindings : Substitution} {fault : MentalFault}
      {done rest : List Effect} {refused : Effect} (binds : action.Binds s asked bindings)
      (closed : ∀ t ∈ action.params, (t.apply bindings).isClosed = true)
      (effects : action.post = done ++ refused :: rest)
      (grants : Effect.Granted (done.map (·.apply bindings)) granted) :
      Course (asked ++ .exchange (.perform (action.apply bindings)) (.ok ()) ::
          (granted ++ [(refused.apply bindings).answered (.error fault)]))
        (.failed ⟨(action.apply bindings).display, .mental fault⟩)
  | performed {asked granted : List Occurrence} {bindings : Substitution}
      (binds : action.Binds s asked bindings)
      (closed : ∀ t ∈ action.params, (t.apply bindings).isClosed = true)
      (grants : Effect.Granted (action.post.map (·.apply bindings)) granted) :
      Course (asked ++ .exchange (.perform (action.apply bindings)) (.ok ()) ::
          (granted ++ [.event (action.apply bindings).accomplishment])) (.done .realAction)

variable {action} {s}

private theorem closed_of_freeVars {bindings : Substitution}
    (nothing : (action.apply bindings).freeVars = []) :
    ∀ t ∈ action.params, (t.apply bindings).isClosed = true := by
  intro t own
  rw [Term.isClosed_iff_not_mem]
  intro x occurs
  have member := Term.mem_freeVarsAll.mpr ⟨_, List.mem_map_of_mem own, occurs⟩
  exact List.eq_nil_iff_forall_not_mem.mp nothing x member

private theorem exists_open {bindings : Substitution}
    (left : (action.apply bindings).freeVars ≠ []) :
    ∃ t ∈ action.params, (t.apply bindings).isClosed = false := by
  obtain ⟨x, member⟩ := List.exists_mem_of_ne_nil _ left
  obtain ⟨_, inside, occurs⟩ := Term.mem_freeVarsAll.mp member
  obtain ⟨t, own, rfl⟩ := List.mem_map.mp inside
  refine ⟨t, own, Bool.eq_false_iff.mpr fun closed => ?_⟩
  exact Term.isClosed_iff_not_mem.mp closed x occurs

end UserAction

namespace Setting

variable (S : Setting σ ω) {action : UserAction} {s bindings : Substitution}

private theorem carryOut_course {asked : List Occurrence} (binds : action.Binds s asked bindings) :
    (S.traced.carryOut (action.apply bindings)).Logs fun outcome seen =>
      action.Course s (asked ++ seen) outcome := by
  unfold carryOut
  split
  · rename_i isEmpty
    have closed := UserAction.closed_of_freeVars (List.isEmpty_iff.mp isEmpty)
    apply S.ask_bind
    intro answer
    cases answer with
    | error fault => exact Exec.logs_pure (.rejected binds closed)
    | ok agreed =>
        apply (S.applyEffects_logs action.post bindings).bind
        rintro _ seen (⟨rfl, all⟩ | ⟨done, refused, rest, fault, granted, effects, rfl, some, rfl⟩)
        · have told : (S.traced.emit .userAction (action.apply bindings).display
              (action.apply bindings).source "performed %s" [(action.apply bindings).display]).Logs
              fun _ more => more = [.event (action.apply bindings).accomplishment] :=
            S.note_logs rfl
          apply told.bind
          rintro _ _ rfl
          exact Exec.logs_pure (.performed binds closed all)
        · apply Exec.logs_pure
          rw [List.append_nil]
          exact .halted binds closed effects some
  · rename_i notEmpty
    have left : (action.apply bindings).freeVars ≠ [] :=
      fun nothing => notEmpty (List.isEmpty_iff.mpr nothing)
    apply Exec.logs_pure
    rw [List.append_nil]
    exact .unbound binds (UserAction.exists_open left)

private theorem userBindings_logs (s : Substitution) (guarded : action.pre.literals ≠ []) :
    (S.traced.userBindings action s).Logs fun found seen =>
      ∃ answer, seen = [.event (action.inquiry s), .exchange (.evaluate action.pre s) answer] ∧
        found = answer.map (·.extend? s) := by
  have told : (S.traced.emit .actionPrecondition action.display action.source
      "evaluating precondition %s of %s" [(action.pre.apply s).display, action.display]).Logs
      fun _ seen => seen = [.event (action.inquiry s)] := S.note_logs rfl
  have notAlways : ¬ action.pre.isEmpty = true := fun always => guarded (List.isEmpty_iff.mp always)
  unfold userBindings
  rw [if_neg notAlways]
  apply told.bind
  rintro _ _ rfl
  apply S.ask_bind
  intro answer
  cases answer with
  | error fault => exact Exec.logs_pure ⟨.error fault, rfl, rfl⟩
  | ok e => exact Exec.logs_pure ⟨.ok e, rfl, rfl⟩

/-- Every run of a user action takes one of the courses. -/
theorem performUser_course (action : UserAction) (s : Substitution) :
    (S.traced.performUser action s).Logs fun outcome seen => action.Course s seen outcome := by
  unfold performUser
  by_cases unguarded : action.pre.literals = []
  · have always : action.pre.isEmpty = true := List.isEmpty_iff.mpr unguarded
    unfold userBindings
    rw [if_pos always]
    exact S.carryOut_course (.unguarded unguarded)
  · apply (S.userBindings_logs s unguarded).bind
    rintro _ _ ⟨answer, rfl, rfl⟩
    cases answer with
    | error fault => exact Exec.logs_pure (.unevaluated unguarded)
    | ok e =>
        dsimp only [Except.map]
        cases extended : e.extend? s with
        | none =>
            exact Exec.logs_pure (.skipped unguarded (Evaluation.denies_of_extend? extended))
        | some bindings =>
            have grants := Evaluation.grants_of_extend? extended
            exact S.carryOut_course (.guarded unguarded grants)

end Setting

/-! ### What all courses have in common -/

def Occurrence.undertaken? : Occurrence → Option UserAction
  | .exchange (.perform action) _ => some action
  | _ => none

def undertaken (seen : List Occurrence) : List UserAction := seen.filterMap Occurrence.undertaken?

@[simp]
theorem undertaken_append (seen more : List Occurrence) :
    undertaken (seen ++ more) = undertaken seen ++ undertaken more := List.filterMap_append

@[simp]
theorem undertaken_perform (action : UserAction) (answer : Except EnvironmentFault Unit)
    (seen : List Occurrence) :
    undertaken (.exchange (.perform action) answer :: seen) = action :: undertaken seen := rfl

@[simp]
theorem undertaken_event (e : Event) : undertaken [.event e] = [] := rfl

@[simp]
theorem undertaken_answered (effect : Effect) (answer : Except MentalFault Update) :
    undertaken [effect.answered answer] = [] := by
  cases effect <;> rfl

private theorem Effect.undertaken_granted {effects : List Effect} {seen : List Occurrence}
    (granted : Granted effects seen) : undertaken seen = [] := by
  induction granted with
  | nil => rfl
  | cons effect update later ih =>
      cases effect with
      | insert | delete => exact ih

namespace UserAction

variable {action : UserAction} {s bindings : Substitution} {seen : List Occurrence}
variable {outcome : Outcome}

theorem Binds.idle (binds : action.Binds s seen bindings) :
    undertaken seen = [] ∧ alterations seen = [] := by
  cases binds with
  | unguarded | guarded => exact ⟨rfl, rfl⟩

/-- The environment is asked once at most, and only about an action that is closed in its
parameters. -/
theorem Course.undertaken_eq (course : action.Course s seen outcome) :
    undertaken seen = [] ∨ ∃ bindings, undertaken seen = [action.apply bindings] ∧
      ∀ t ∈ action.params, (t.apply bindings).isClosed = true := by
  cases course with
  | unevaluated | skipped => exact .inl rfl
  | unbound binds => exact .inl binds.idle.1
  | rejected binds closed =>
      refine .inr ⟨_, ?_, closed⟩
      rw [undertaken_append, binds.idle.1]
      rfl
  | halted binds closed effects grants =>
      refine .inr ⟨_, ?_, closed⟩
      simp [binds.idle.1, Effect.undertaken_granted grants]
  | performed binds closed grants =>
      refine .inr ⟨_, ?_, closed⟩
      simp [binds.idle.1, Effect.undertaken_granted grants]

/-- Where the environment has not agreed, nothing has been altered. -/
theorem Course.unaltered (course : action.Course s seen outcome)
    (never : ∀ a, .exchange (.perform a) (.ok ()) ∉ seen) : alterations seen = [] := by
  cases course with
  | unevaluated | skipped => rfl
  | unbound binds => exact binds.idle.2
  | rejected binds =>
      rw [alterations_append, binds.idle.2]
      rfl
  | halted | performed => exact absurd (List.mem_append_right _ List.mem_cons_self) (never _)

end UserAction

/-- Whatever the world answers, a user action returns if no variable reaches itself in its bindings.
If it returns, it has taken one of the courses, from the world at hand to the one that it leaves. It
has asked the environment once at most, and only about closed parameters, to which its own come, and
has altered nothing before the environment has agreed. An action frame comes to this in a single
turn. -/
theorem user_action_effects (S : Setting σ ω) (action : UserAction) (s : Substitution)
    (situation : Situation σ ω) :
    let seen := (S.traced.performUser action s situation.unseen).2.record
    (s.Acyclic → ∃ turn, S.performUser? action s situation = some turn) ∧
    ∀ turn, S.performUser? action s situation = some turn →
      S.Unfolds situation.world seen turn.2.world ∧ action.Course s seen turn.1 ∧
      (undertaken seen).length ≤ 1 ∧
      (∀ performed ∈ undertaken seen, (∀ t ∈ performed.params, t.isClosed = true) ∧
        ∃ bindings, Term.ResolvesAll bindings action.params performed.params) ∧
      ((∀ a, .exchange (.perform a) (.ok ()) ∉ seen) → alterations seen = []) ∧
      ∀ (x : ActionFrame) (previous : Option RunResult), x.action = .user action →
        x.substitution = s → x.called = none →
          S.resumeWith? (.action x) previous situation = some ((.action x, turn.1), turn.2) := by
  intro seen
  refine ⟨fun acyclic => ⟨_, S.performUser?_returns acyclic action situation⟩, ?_⟩
  intro turn returned
  have same : turn = S.performUser action s situation := by
    rcases S.performUser?_eq action s situation with never | reached
    · rw [never] at returned
      cases returned
    · exact Option.some.inj (returned.symm.trans reached)
  have course : action.Course s seen turn.1 := by
    obtain ⟨noted, record, here⟩ := S.performUser_course action s situation.unseen
    have alike := (S.mirrors_traced.toConverses.performUser action s _ _ situation.alike_unseen).1
    have all : seen = noted := record
    rw [all, same, alike]
    exact here
  refine ⟨?_, course, ?_, ?_, course.unaltered, ?_⟩
  · rw [same]
    exact S.performUser_unfolds action s situation
  · rcases course.undertaken_eq with none | ⟨bindings, one, _⟩
    · rw [none]
      exact Nat.zero_le 1
    · rw [one]
      exact Nat.le_refl 1
  · intro performed member
    rcases course.undertaken_eq with none | ⟨bindings, one, closed⟩
    · rw [none] at member
      cases member
    · rw [one, List.mem_singleton] at member
      rw [member]
      refine ⟨fun t own => ?_, bindings, Term.resolvesAll_map fun t inside => ?_⟩
      · obtain ⟨param, inside, rfl⟩ := List.mem_map.mp own
        exact closed param inside
      · exact Term.resolves_of_unbound fun y occurs =>
          absurd occurs (Term.isClosed_iff_not_mem.mp (closed t inside) y)
  · rintro ⟨_, s, focus, order, _⟩ previous rfl rfl rfl
    have acted : S.resumeAction? ⟨.user action, s, focus, order, none⟩ previous situation =
        some ((⟨.user action, s, focus, order, none⟩, turn.1), turn.2) := by
      change (S.performUser? action s situation).bind _ = _
      rw [returned]
      rfl
    change (S.resumeAction? _ previous situation).bind _ = _
    rw [acted]
    rfl

def handover : UserAction :=
  { name := "deliver"
    params := [.var "X", .var "Y"]
    pre := .belief (.compound "belongs" [.var "X", .var "Y"])
    post := [.delete (.compound "held" [.var "X"]), .insert (.compound "served" [.var "Y"]),
      .insert (.atom "delivered")] }

/-- A parcel is at hand. The first answer is about a letter, the second one about the parcel, and
the place is not to be remembered. -/
def deliveringParcel : Situation Simulation.World Simulation.Trace :=
  Simulation.situation
    { mind :=
        { beliefs := [.compound "held" [.atom "parcel"]]
          canned := [⟨"bel(belongs(X, Y))", .ofAnswers
            [.ofList [("X", .atom "letter"), ("Y", .atom "office")],
              .ofList [("X", .atom "parcel"), ("Y", .atom "home")]]⟩]
          sabotages := [⟨.insert, some "served(home)", "forgotten"⟩] } }
    ⟨Vector.replicate 8 0, 0⟩

def parcelAtHand : Substitution := .ofList [("X", .atom "parcel")]

/-- The parcel is delivered and given away, and then nothing more is tried. -/
theorem user_action_effects_of_delivery :
    let S := Simulation.setting ⟨[], none, none, none, none⟩ .linear false
    let seen := (S.traced.performUser handover parcelAtHand deliveringParcel.unseen).2.record
    let turn := S.performUser handover parcelAtHand deliveringParcel
    parcelAtHand.Acyclic ∧ S.performUser? handover parcelAtHand deliveringParcel = some turn ∧
    turn.1 = .failed ⟨"deliver(parcel, home)",
      .mental (.update "insert(served(home))" "forgotten")⟩ ∧
    (undertaken seen).map UserAction.display = ["deliver(parcel, home)"] ∧
    (updates seen).map Term.display = ["held(parcel)", "served(home)"] ∧
    turn.2.world.mind.beliefs.isEmpty = true ∧
    S.Unfolds deliveringParcel.world seen turn.2.world ∧
    handover.Course parcelAtHand seen turn.1 ∧
    ∀ performed ∈ undertaken seen, ∀ t ∈ performed.params, t.isClosed = true := by
  intro S seen turn
  have closed : parcelAtHand.IsClosed := by decide
  have acyclic := closed.acyclic
  obtain ⟨returns, effects⟩ := user_action_effects S handover parcelAtHand deliveringParcel
  obtain ⟨left, returned⟩ := returns acyclic
  have reached := S.performUser?_returns acyclic handover deliveringParcel
  obtain rfl : left = turn := Option.some.inj (returned.symm.trans reached)
  obtain ⟨unfolds, course, _, performed, _⟩ := effects turn reached
  refine ⟨acyclic, reached, ?_, ?_, ?_, ?_, unfolds, course,
    fun action member => (performed action member).1⟩
  · rfl
  · decide +kernel
  · decide +kernel
  · decide +kernel

def greetAll : UserAction := { name := "greet", params := [.var "L"] }

def listInItself : Substitution := Substitution.empty.bind "L" (.list [.var "L"])

/-- To greet a list that holds itself neither fails nor does it come to anything else: there is
nothing that its parameter could be. -/
theorem greeting_unending :
    (∀ result, ¬ (Term.var "L").Resolves listInItself result) ∧
    ∀ (S : Setting Simulation.World Simulation.Trace)
        (situation : Situation Simulation.World Simulation.Trace),
      S.performUser? greetAll listInItself situation = none := by
  have endless : listInItself.resolves (.var "L") = false := by decide +kernel
  refine ⟨fun result resolves => ?_, fun S situation => ?_⟩
  · rw [Substitution.resolves_iff.mpr ⟨result, resolves⟩] at endless
    cases endless
  · have never : (Action.user greetAll).terms.all listInItself.resolves = false := by
      decide +kernel
    change ((Attempt.provided ((Action.user greetAll).terms.all listInItself.resolves) >>=
      fun _ => Attempt.ofExec (S.carryOut (greetAll.apply listInItself))) situation) = none
    rw [never]
    rfl

end CognitiveAgent
