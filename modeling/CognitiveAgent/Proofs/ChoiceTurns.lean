import CognitiveAgent.Proofs.PassTurns

/-!
What a module that follows a learner does in one resumption, deed by deed: it hears whether to
stop, surveys its rules, has the learner choose, rewards the learner, judges its exit condition
and leaves. Each deed shows in what occurs, and the deeds of a turn make up a move.
-/

set_option autoImplicit false

namespace CognitiveAgent

variable {σ ω : Type}

def Rule.candidates (rule : Rule) (index : Nat) (options : List Instantiation) : List Candidate :=
  options.map fun option =>
    { rule := index, combo := rule.combo, substitution := option.substitution,
      focus := option.focus }

/-- The conditions of numbered rules are evaluated one after the other, and all instantiations of
all these rules become candidates, in that order. -/
inductive Surveys (incoming : Substitution) :
    List (Rule × Nat) → List Candidate → List Occurrence → Prop where
  | nil : Surveys incoming [] [] []
  | cons {rule : Rule} {index : Nat} {rest : List (Rule × Nat)} {evaluation : Evaluation}
      {event : Event} {candidates : List Candidate} {seen : List Occurrence}
      (others : Surveys incoming rest candidates seen) :
      Surveys incoming ((rule, index) :: rest)
        (rule.candidates index (rule.instantiations evaluation incoming) ++ candidates)
        (.event event :: .exchange (.evaluate rule.condition incoming) (.ok evaluation) :: seen)

inductive ChoiceDeed where
  | hears (stop : Bool)
  | updates (reward : Number)
  | judges (performed holds : Bool)
  | surveys (candidates : List Candidate)
  | balks
  | chooses (candidates : List Candidate) (index : Nat)
  | leaves (outcome : Outcome)

namespace Activation

inductive Shows (now : Activation) : ChoiceDeed → List Occurrence → Prop where
  | hears {stop : Bool} {seen : List Occurrence}
      (asked : (now.result.isRunning = false ∧ stop = true ∧ seen = []) ∨
        (now.result.isRunning = true ∧ seen = [.exchange .stopSignal stop])) :
      Shows now (.hears stop) seen
  -- The reward is the environment's, or else one for an agent without goals.
  | updates {reward : Number} {asked rest : List Occurrence}
      (rewards : asked = [.exchange .reward (some reward)] ∨
        ∃ goals, asked = [.exchange .reward none, .exchange .hasGoals goals] ∧
          reward = if goals then .zero else .one)
      (upkeep : ∀ o ∈ rest, o.Upkeep) :
      Shows now (.updates reward) (asked ++ .exchange (.learn now.module.name reward) () :: rest)
  | judges {performed holds : Bool} {judged rest : List Occurrence}
      (judges : ({ now with passPerformed := performed } : Activation).Judges holds judged)
      (upkeep : ∀ o ∈ rest, o.Upkeep) :
      Shows now (.judges performed holds) (judged ++ rest)
  | surveys {candidates : List Candidate} {seen : List Occurrence}
      (surveys : Surveys now.substitution now.module.rules.zipIdx candidates seen) :
      Shows now (.surveys candidates) seen
  | balks {seen : List Occurrence} (mere : ∀ o ∈ seen, o.Upkeep ∨ o.isEvaluation = true) :
      Shows now .balks seen
  | chooses {candidates : List Candidate} {index : Nat} {rest : List Occurrence}
      (upkeep : ∀ o ∈ rest, o.Upkeep) :
      Shows now (.chooses candidates index)
        (.exchange (.choose now.module.name candidates) index :: rest)
  | leaves {outcome : Outcome} {seen : List Occurrence} (leaves : now.Leaves outcome seen) :
      Shows now (.leaves outcome) seen

inductive Tells (now : Activation) : List ChoiceDeed → List Occurrence → Prop where
  | nil : now.Tells [] []
  | cons {deed : ChoiceDeed} {deeds : List ChoiceDeed} {seen more : List Occurrence}
      (shows : now.Shows deed seen) (rest : now.Tells deeds more) :
      now.Tells (deed :: deeds) (seen ++ more)

variable {now : Activation}

theorem Shows.judged {holds : Bool} {seen : List Occurrence} (judges : now.Judges holds seen) :
    now.Shows (.judges now.passPerformed holds) seen := by
  have shows : now.Shows (.judges now.passPerformed holds) (seen ++ []) :=
    .judges judges fun o member => absurd member List.not_mem_nil
  rw [List.append_nil] at shows
  exact shows

theorem Tells.single {deed : ChoiceDeed} {seen : List Occurrence} (shows : now.Shows deed seen) :
    now.Tells [deed] seen := by
  have tells := Tells.cons shows .nil
  rw [List.append_nil] at tells
  exact tells

/-- Deeds do not show the mark of the pass. -/
theorem Tells.unmarked {performed : Bool} {deeds : List ChoiceDeed} {seen : List Occurrence}
    (tells : ({ now with passPerformed := performed } : Activation).Tells deeds seen) :
    now.Tells deeds seen := by
  induction tells with
  | nil => exact .nil
  | @cons deed deeds seen more shows _ ih =>
      refine .cons ?_ ih
      cases shows with
      | hears asked => exact .hears asked
      | updates rewards upkeep => exact .updates rewards upkeep
      | judges judges upkeep => exact .judges judges upkeep
      | surveys surveys => exact .surveys surveys
      | balks mere => exact .balks mere
      | chooses upkeep => exact .chooses upkeep
      | leaves leaves => exact .leaves leaves

end Activation

/-! ### Moves -/

namespace Setting

variable (S : Setting σ ω)

/-- A module surveys its rules and has the learner choose, or finds no candidates and judges its
exit condition. The last entry is what it waits for. -/
inductive Offers (now : Activation) : List ChoiceDeed → Outcome → ChoiceAwaiting → Prop where
  | balks {failure : Failure} : Offers now [.balks] (.failed failure) .nothing
  | exits {outcome : Outcome} (ends : ∀ children, outcome ≠ .yield children) :
      Offers now [.surveys [], .judges now.passPerformed true, .leaves outcome] outcome .nothing
  | idles (noEvents : S.eventPass now = none) :
      Offers now [.surveys [], .judges now.passPerformed false] (.yield []) .nothing
  | separates {frames : List Frame} (events : S.eventPass now = some frames) :
      Offers now [.surveys [], .judges now.passPerformed false] (.yield frames) (.eventPass false)
  | chooses {candidates : List Candidate} {index : Nat} {choice : Candidate}
      (found : candidates[index]? = some choice) :
      Offers now [.surveys candidates, .chooses candidates index]
        (.yield (now.comboFrames choice.combo choice.substitution choice.focus)) .combo
  | misses {candidates : List Candidate} {index : Nat} (offered : candidates ≠ [])
      (missing : candidates[index]? = none) :
      Offers now [.surveys candidates, .chooses candidates index]
        (.failed ⟨now.module.display, .learner now.module.name index candidates.length⟩) .nothing

/-- A module rewards the learner and then leaves, or goes on to the next choice. -/
inductive Settles (now : Activation) : List ChoiceDeed → Outcome → ChoiceAwaiting → Prop where
  | stops {reward : Number} {outcome : Outcome} (ends : ∀ children, outcome ≠ .yield children) :
      Settles now [.updates reward, .hears true, .leaves outcome] outcome .nothing
  | exits {reward : Number} {outcome : Outcome} (ends : ∀ children, outcome ≠ .yield children) :
      Settles now [.updates reward, .hears false, .judges now.passPerformed true, .leaves outcome]
        outcome .nothing
  | goesOn {reward : Number} {deeds : List ChoiceDeed} {outcome : Outcome} {next : ChoiceAwaiting}
      (offers : S.Offers { now with passPerformed := false } deeds outcome next) :
      Settles now (.updates reward :: .hears false :: .judges now.passPerformed false :: deeds)
        outcome next

/-- What a module that follows a learner does in a turn, once the result that it has waited for is
taken in. -/
inductive ChoiceMove (now : Activation) :
    ChoiceStage → List ChoiceDeed → Outcome → ChoiceAwaiting → Prop where
  | quits {reward : Number} {outcome : Outcome} (ends : ∀ children, outcome ≠ .yield children) :
      ChoiceMove now .acted [.hears true, .updates reward, .leaves outcome] outcome .nothing
  | separates {frames : List Frame} (events : S.eventPass now = some frames) :
      ChoiceMove now .acted [.hears false] (.yield frames) (.eventPass true)
  | settles {deeds : List ChoiceDeed} {outcome : Outcome} {next : ChoiceAwaiting}
      (noEvents : S.eventPass now = none) (settles : S.Settles now deeds outcome next) :
      ChoiceMove now .acted (.hears false :: deeds) outcome next
  | settlesLate {deeds : List ChoiceDeed} {outcome : Outcome} {next : ChoiceAwaiting}
      (settles : S.Settles now deeds outcome next) :
      ChoiceMove now (.passed true) deeds outcome next
  | stops {stage : ChoiceStage} {outcome : Outcome} (free : stage = .idle ∨ stage = .passed false)
      (ends : ∀ children, outcome ≠ .yield children) :
      ChoiceMove now stage [.hears true, .leaves outcome] outcome .nothing
  | offers {stage : ChoiceStage} {deeds : List ChoiceDeed} {outcome : Outcome}
      {next : ChoiceAwaiting} (free : stage = .idle ∨ stage = .passed false)
      (offers : S.Offers now deeds outcome next) :
      ChoiceMove now stage (.hears false :: deeds) outcome next

/-! ### What occurs -/

private theorem reportReward_rewards (now : Activation) :
    (S.traced.reportReward now).Logs fun _ seen => ∃ reward, now.Shows (.updates reward) seen := by
  have rewarding : S.traced.rewardNow.Logs fun reward seen =>
      seen = [.exchange .reward (some reward)] ∨
        ∃ goals, seen = [.exchange .reward none, .exchange .hasGoals goals] ∧
          reward = if goals then .zero else .one := by
    unfold rewardNow
    refine S.ask_bind fun answer => ?_
    cases answer with
    | some reward => exact Exec.logs_pure (.inl rfl)
    | none =>
        refine S.ask_bind fun goals => ?_
        cases goals with
        | true => exact Exec.logs_pure (.inr ⟨true, rfl, rfl⟩)
        | false => exact Exec.logs_pure (.inr ⟨false, rfl, rfl⟩)
  unfold reportReward
  refine rewarding.bind fun reward asked noted => ?_
  refine S.ask_bind fun _ => ?_
  refine Exec.Logs.mono (S.emit_upkeep _ _ _ _ _) fun _ rest upkeep => ?_
  exact ⟨reward, .updates noted upkeep⟩

private theorem candidatesOf_surveys (incoming : Substitution) (rules : List (Rule × Nat)) :
    (S.traced.candidatesOf incoming rules).Logs fun found seen =>
      match found with
      | .ok candidates => Surveys incoming rules candidates seen
      | .error _ => ∀ o ∈ seen, o.Upkeep ∨ o.isEvaluation = true := by
  induction rules with
  | nil => exact Exec.logs_pure .nil
  | cons next rest ih =>
      obtain ⟨rule, index⟩ := next
      have instantiated : (S.traced.instantiate rule incoming).Logs fun found seen =>
          ∃ event answer,
            seen = [.event event, .exchange (.evaluate rule.condition incoming) answer] ∧
            match found with
            | .ok options => ∃ evaluation, answer = .ok evaluation ∧
                options = rule.instantiations evaluation incoming
            | .error _ => True := by
        unfold instantiate
        refine (S.note_logs rfl : (S.traced.note (.event _)).Logs fun _ seen =>
          seen = [.event _]).bind fun _ told noted => ?_
        subst noted
        refine S.ask_bind fun answer => ?_
        cases answer with
        | error fault => exact Exec.logs_pure ⟨_, _, rfl, trivial⟩
        | ok evaluation => exact Exec.logs_pure ⟨_, _, rfl, evaluation, rfl, rfl⟩
      unfold candidatesOf
      refine instantiated.bind fun found seen noted => ?_
      obtain ⟨event, answer, rfl, noted⟩ := noted
      have mere : ∀ o ∈ [Occurrence.event event,
          .exchange (.evaluate rule.condition incoming) answer],
          o.Upkeep ∨ o.isEvaluation = true := by
        intro o member
        simp only [List.mem_cons, List.not_mem_nil, or_false] at member
        rcases member with rfl | rfl
        · exact .inl (.event event)
        · exact .inr rfl
      cases found with
      | error failure =>
          refine Exec.logs_pure ?_
          rw [List.append_nil]
          exact mere
      | ok options =>
          obtain ⟨evaluation, rfl, rfl⟩ := noted
          refine ih.bind fun others more surveys => ?_
          cases others with
          | error failure =>
              refine Exec.logs_pure ?_
              intro o member
              rw [List.append_nil] at member
              rcases List.mem_append.mp member with first | rest
              · exact mere o first
              · exact surveys o rest
          | ok others =>
              refine Exec.logs_pure ?_
              rw [List.append_nil]
              exact .cons surveys

/-- A module leaves. -/
theorem leave_tells (now : Activation) :
    (do
      let (left, outcome) ← S.traced.finish now
      return (left, {}, outcome) :
        Exec σ (List Occurrence) (Activation × ChoiceState × Outcome)).Logs fun left seen =>
        left.2.1.awaiting = .nothing ∧ (∀ children, left.2.2 ≠ .yield children) ∧
          now.Tells [.leaves left.2.2] seen := by
  refine (S.finish_leaves now).bind fun left seen leaves => ?_
  refine Exec.logs_pure ⟨rfl, ?_, ?_⟩
  · intro children yields
    obtain ⟨_, _, _, _, ⟨failure, failed⟩ | done⟩ := leaves
    · cases failed.symm.trans yields
    · cases done.symm.trans yields
  · rw [List.append_nil]
    exact .single (.leaves leaves)

private theorem decide_offers (now : Activation) {candidates : List Candidate}
    (offered : candidates ≠ []) :
    (S.traced.decide now candidates).Logs fun left seen =>
      ∃ index, now.Tells [.chooses candidates index] seen ∧
        S.Offers now [.surveys candidates, .chooses candidates index] left.2.2
          left.2.1.awaiting := by
  unfold Setting.decide
  refine S.ask_bind fun index => ?_
  cases found : candidates[index]? with
  | none =>
      refine Exec.logs_pure ⟨index, .single (.chooses ?_), .misses offered found⟩
      intro o member
      cases member
  | some choice =>
      refine Exec.Logs.bind (S.emit_upkeep _ _ _ _ _) fun _ rest upkeep => ?_
      refine Exec.logs_pure ⟨index, ?_, .chooses found⟩
      rw [List.append_nil]
      exact .single (.chooses upkeep)

private theorem pause_offers (now : Activation) :
    (S.traced.pause now).Logs fun left seen =>
      ∃ deeds, now.Tells deeds seen ∧
        S.Offers now (.surveys [] :: deeds) left.2.2 left.2.1.awaiting := by
  unfold pause
  refine (S.exitHolds_logs now).bind fun holds judged judges => ?_
  cases holds with
  | true =>
      refine (S.leave_tells now).mono fun left seen leaves => ?_
      obtain ⟨nothing, ends, tells⟩ := leaves
      rw [nothing]
      exact ⟨_, .cons (.judged judges) tells, .exits ends⟩
  | false =>
      refine (S.nextPass_upkeep now).bind fun later seen next => ?_
      obtain ⟨rfl, upkeep⟩ := next
      have tells : now.Tells [.judges now.passPerformed false] (judged ++ seen) :=
        .single (.judges judges upkeep)
      cases pass : S.eventPass now with
      | some frames =>
          have here : S.traced.eventPass { now with passPerformed := false } = some frames := pass
          rw [here]
          refine Exec.logs_pure ⟨_, ?_, .separates pass⟩
          rw [List.append_nil]
          exact tells
      | none =>
          have here : S.traced.eventPass { now with passPerformed := false } = none := pass
          rw [here]
          refine Exec.logs_pure ⟨_, ?_, .idles pass⟩
          rw [List.append_nil]
          exact tells

private theorem offer_offers (now : Activation) :
    (S.traced.offer now).Logs fun left seen =>
      ∃ deeds, now.Tells deeds seen ∧ S.Offers now deeds left.2.2 left.2.1.awaiting := by
  unfold offer
  refine (S.candidatesOf_surveys _ _).bind fun found seen surveys => ?_
  match found with
  | .error failure =>
      refine Exec.logs_pure ⟨_, ?_, .balks⟩
      rw [List.append_nil]
      exact .single (.balks surveys)
  | .ok [] =>
      refine (S.pause_offers now).mono fun left more offers => ?_
      obtain ⟨deeds, tells, offers⟩ := offers
      exact ⟨_, .cons (.surveys surveys) tells, offers⟩
  | .ok (candidate :: rest) =>
      refine (S.decide_offers now (List.cons_ne_nil _ _)).mono fun left more offers => ?_
      obtain ⟨index, tells, offers⟩ := offers
      exact ⟨_, .cons (.surveys surveys) tells, offers⟩

private theorem settle_settles (now : Activation) :
    (S.traced.settle now).Logs fun left seen =>
      ∃ deeds, now.Tells deeds seen ∧ S.Settles now deeds left.2.2 left.2.1.awaiting := by
  unfold Setting.settle
  refine (S.reportReward_rewards now).bind fun _ rewarded rewards => ?_
  obtain ⟨reward, rewards⟩ := rewards
  refine (S.mustStop_logs now).bind fun stop asked hears => ?_
  cases stop with
  | true =>
      refine (S.leave_tells now).mono fun left seen leaves => ?_
      obtain ⟨nothing, ends, tells⟩ := leaves
      rw [nothing]
      exact ⟨_, .cons rewards (.cons (.hears hears) tells), .stops ends⟩
  | false =>
      refine (S.exitHolds_logs now).bind fun holds judged judges => ?_
      cases holds with
      | true =>
          refine (S.leave_tells now).mono fun left seen leaves => ?_
          obtain ⟨nothing, ends, tells⟩ := leaves
          rw [nothing]
          exact ⟨_, .cons rewards (.cons (.hears hears) (.cons (.judged judges) tells)),
            .exits ends⟩
      | false =>
          refine (S.nextPass_upkeep now).bind fun later seen next => ?_
          obtain ⟨rfl, upkeep⟩ := next
          refine (S.offer_offers _).mono fun left more offers => ?_
          obtain ⟨deeds, tells, offers⟩ := offers
          rw [← List.append_assoc judged]
          exact ⟨_, .cons rewards (.cons (.hears hears)
            (.cons (.judges judges upkeep) tells.unmarked)), .goesOn offers⟩

/-- A module hears whether it must stop, and leaves or surveys its rules. -/
theorem listen_moves (now : Activation) {stage : ChoiceStage}
    (free : stage = .idle ∨ stage = .passed false) :
    (do
      if ← S.traced.mustStop now then
        let (left, outcome) ← S.traced.finish now
        return (left, {}, outcome)
      else S.traced.offer now :
        Exec σ (List Occurrence) (Activation × ChoiceState × Outcome)).Logs fun left seen =>
        ∃ deeds, now.Tells deeds seen ∧
          S.ChoiceMove now stage deeds left.2.2 left.2.1.awaiting := by
  refine (S.mustStop_logs now).bind fun stop asked hears => ?_
  cases stop with
  | true =>
      refine (S.leave_tells now).mono fun left seen leaves => ?_
      obtain ⟨nothing, ends, tells⟩ := leaves
      rw [nothing]
      exact ⟨_, .cons (.hears hears) tells, .stops free ends⟩
  | false =>
      refine (S.offer_offers now).mono fun left seen offers => ?_
      obtain ⟨deeds, tells, offers⟩ := offers
      exact ⟨_, .cons (.hears hears) tells, .offers free offers⟩

/-- One resumption of a module that follows a learner is a move, and its deeds show in what
occurs. -/
theorem resumeChoices_moves (a : Activation) (state : ChoiceState) (previous : Option RunResult) :
    (S.traced.resumeChoices a state previous).Logs fun left seen =>
      ∃ deeds, (state.absorb a previous).1.Tells deeds seen ∧
        S.ChoiceMove (state.absorb a previous).1 (state.absorb a previous).2 deeds left.2.2
          left.2.1.awaiting := by
  unfold resumeChoices
  obtain ⟨now, stage⟩ := state.absorb a previous
  cases stage with
  | idle => exact S.listen_moves now (.inl rfl)
  | passed chose =>
      cases chose with
      | false => exact S.listen_moves now (.inr rfl)
      | true =>
          refine (S.settle_settles now).mono fun left seen settles => ?_
          obtain ⟨deeds, tells, settles⟩ := settles
          exact ⟨deeds, tells, .settlesLate settles⟩
  | acted =>
      refine (S.mustStop_logs now).bind fun stop asked hears => ?_
      cases stop with
      | true =>
          refine (S.reportReward_rewards now).bind fun _ rewarded rewards => ?_
          obtain ⟨reward, rewards⟩ := rewards
          refine (S.leave_tells now).mono fun left seen leaves => ?_
          obtain ⟨nothing, ends, tells⟩ := leaves
          rw [nothing]
          exact ⟨_, .cons (.hears hears) (.cons rewards tells), .quits ends⟩
      | false =>
          have same : S.traced.eventPass now = S.eventPass now := rfl
          dsimp only
          rw [same]
          cases pass : S.eventPass now with
          | some frames =>
              refine Exec.logs_pure ⟨_, ?_, .separates pass⟩
              rw [List.append_nil]
              exact .single (.hears hears)
          | none =>
              refine (S.settle_settles now).mono fun left seen settles => ?_
              obtain ⟨deeds, tells, settles⟩ := settles
              exact ⟨_, .cons (.hears hears) tells, .settles pass settles⟩

end Setting

end CognitiveAgent
