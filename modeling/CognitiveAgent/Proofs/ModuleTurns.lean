import CognitiveAgent.Proofs.LearnerCalls
import CognitiveAgent.Proofs.PlanLedger

/-!
What a module does in one turn, whichever strategy it has. What it pushes comes from its rules,
from the plan that the world has given it, or is the event module.
-/

set_option autoImplicit false

namespace CognitiveAgent

variable {σ ω : Type}

theorem Outcome.exists_result {outcome : Outcome} (ends : ∀ children, outcome ≠ .yield children) :
    ∃ result, outcome.result? = some result := by
  cases outcome with
  | yield children => exact absurd rfl (ends children)
  | done result => exact ⟨_, rfl⟩
  | failed failure => exact ⟨_, rfl⟩

theorem Activation.Departs.ends {a : Activation} {outcome : Outcome} {seen : List Occurrence}
    (departs : a.Departs outcome seen) (children : List Frame) : outcome ≠ .yield children := by
  rintro rfl
  obtain ⟨_, _, _, _, ⟨_, impossible⟩ | impossible⟩ := departs
  · cases impossible
  · cases impossible

theorem Surveys.combo {incoming : Substitution} {rules : List (Rule × Nat)}
    {candidates : List Candidate} {seen : List Occurrence}
    (surveys : Surveys incoming rules candidates seen) {choice : Candidate}
    (member : choice ∈ candidates) : ∃ entry ∈ rules, choice.combo = entry.1.combo := by
  induction surveys with
  | nil => cases member
  | @cons rule index rest evaluation event candidates seen others ih =>
      rcases List.mem_append.mp member with own | later
      · obtain ⟨option, _, rfl⟩ := List.mem_map.mp own
        exact ⟨(rule, index), List.mem_cons_self, rfl⟩
      · obtain ⟨entry, further, same⟩ := ih later
        exact ⟨entry, List.mem_cons_of_mem _ further, same⟩

/-- The combos that are offered to a learner are those of the rules. -/
theorem Activation.Tells.combo {now : Activation} {deeds : List ChoiceDeed}
    {seen : List Occurrence} (tells : now.Tells deeds seen) {candidates : List Candidate}
    (member : .surveys candidates ∈ deeds) {choice : Candidate} (offered : choice ∈ candidates) :
    ∃ rule ∈ now.module.rules, choice.combo = rule.combo := by
  obtain ⟨_, _, surveys⟩ := tells.surveyed member
  obtain ⟨entry, own, same⟩ := surveys.combo offered
  exact ⟨entry.1, List.fst_mem_of_mem_zipIdx own, same⟩

theorem PlanState.exists_of_take? {state later : PlanState} {step : PlanStep}
    (next : state.take? = some (step, later)) :
    ∃ rest, state.plan = some (step :: rest) ∧ later = ⟨some rest, state.plannedBefore, true⟩ := by
  obtain ⟨plan, before, awaiting⟩ := state
  match plan with
  | none | some [] => cases next
  | some (first :: rest) =>
      cases next
      exact ⟨rest, rfl, rfl⟩

inductive Setting.Pursues (S : Setting σ ω) (a : Activation) (previous : Option RunResult) :
    StrategyState → ModuleFrame × Outcome → List Occurrence → Prop where
  | passes {state later : PassState} {left : Activation} {outcome : Outcome}
      {seen : List Occurrence}
      (turn : S.PassTurn (state.absorb a previous).1 { state with awaiting := .nothing }
        (state.absorb a previous).2 (left, later, outcome) seen) :
      Pursues S a previous (.passes state) (⟨left, .passes later⟩, outcome) seen
  | choices {state later : ChoiceState} {left : Activation} {outcome : Outcome}
      {deeds : List ChoiceDeed} {seen : List Occurrence}
      (tells : (state.absorb a previous).1.Tells deeds seen)
      (move : S.ChoiceMove (state.absorb a previous).1 (state.absorb a previous).2 deeds outcome
        later.awaiting) :
      Pursues S a previous (.choices state) (⟨left, .choices later⟩, outcome) seen
  | plans {state later : PlanState} {left : Activation} {outcome : Outcome}
      {seen : List Occurrence}
      (turn : (state.absorb a previous).1.PlanTurn (state.absorb a previous).2
        (left, later, outcome) seen) :
      Pursues S a previous (.plans state) (⟨left, .plans later⟩, outcome) seen

namespace Setting

variable (S : Setting σ ω)

theorem present_module (g : ModuleFrame) : (S.present g).module = g.activation.module := by
  unfold present
  split <;> rfl

theorem present_isMain (g : ModuleFrame) : (S.present g).isMain = g.activation.isMain := by
  unfold present
  split <;> rfl

theorem pursue_pursues (a : Activation) (strategy : StrategyState) (previous : Option RunResult) :
    (S.traced.pursue a strategy previous).Logs (S.Pursues a previous strategy) := by
  cases strategy with
  | passes state =>
      exact ((S.resumePasses_logs a state previous).mono fun _ _ turn => .passes turn).map
  | choices state =>
      refine ((S.resumeChoices_moves a state previous).mono fun left seen moves => ?_).map
      obtain ⟨deeds, tells, move⟩ := moves
      exact .choices tells move
  | plans state =>
      exact ((S.resumePlans_turns a state previous).mono fun _ _ turn => .plans turn).map

/-- A module that is resumed fails on its entry, or it keeps its identity and takes a turn by its
strategy, in which all answers are the world's. -/
theorem resumeModule_turn (g : ModuleFrame) (previous : Option RunResult) :
    (S.resumeModule g previous).Returns fun left => (∃ failure, left.2 = .failed failure) ∨
      (S.present g).Keeps left.1.activation ∧ ∃ seen, (∀ o ∈ seen, o.Given S) ∧
        S.Pursues (S.present g) previous g.strategy left seen := by
  have pursued (a : Activation) (prepared : a.prepared = true) :
      (S.traced.pursue a g.strategy previous).Logs fun left seen =>
        S.Pursues a previous g.strategy left seen ∧ a.Keeps left.1.activation :=
    (S.pursue_pursues a g.strategy previous).and_returns
      ((S.traced.pursue_returns prepared g.strategy previous).mono fun _ served => served.1)
  have returned := returns_of_logs (S := S)
    (S.mirrors_traced.resumeModule (S.mirrors_traced.shufflesAlike _) previous)
    (S.mirrors_given.resumeModule (S.mirrors_given.shufflesAlike _) previous)
    (S.resumeModule_pursues pursued)
  refine returned.mono fun left turn => ?_
  obtain ⟨seen, given, ⟨_, failed, _⟩ | ⟨entry, rest, rfl, _, pursues, keeps⟩⟩ := turn
  · exact .inl failed
  · exact .inr ⟨keeps, rest, fun o member => given o (List.mem_append_right _ member), pursues⟩

end Setting

end CognitiveAgent
