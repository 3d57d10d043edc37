import CognitiveAgent.Proofs.ChoiceTurns
import CognitiveAgent.Proofs.PassLedger

/-!
What the moves of a module that follows a learner have to do with the learner. Choices and rewards
alternate; what is chosen among some candidates is run; and the exit condition is judged when it
is due. Each of these holds of a move because it holds of the parts that moves are made of.
-/

set_option autoImplicit false

namespace CognitiveAgent

variable {σ ω : Type}

inductive LearnerCall where
  | act (candidates : List Candidate) (index : Nat)
  | update (reward : Number)

def LearnerCall.chosen? : LearnerCall → Option Candidate
  | .act candidates index => candidates[index]?
  | .update _ => none

def Occurrence.learnerCall? : Occurrence → Option LearnerCall
  | .exchange (.choose _ candidates) index => some (.act candidates index)
  | .exchange (.learn _ reward) _ => some (.update reward)
  | _ => none

def learnerCalls (seen : List Occurrence) : List LearnerCall :=
  seen.filterMap Occurrence.learnerCall?

/-- Choices and rewards alternate, from a choice on. The last entry tells whether the last choice
is still to be rewarded. -/
inductive Alternates : List LearnerCall → Bool → Prop where
  | nil : Alternates [] false
  | act {calls : List LearnerCall} {candidates : List Candidate} {index : Nat}
      (settled : Alternates calls false) : Alternates (calls ++ [.act candidates index]) true
  | update {calls : List LearnerCall} {reward : Number} (owed : Alternates calls true) :
      Alternates (calls ++ [.update reward]) false

theorem learnerCalls_append (seen more : List Occurrence) :
    learnerCalls (seen ++ more) = learnerCalls seen ++ learnerCalls more := List.filterMap_append

private theorem learnerCalls_eq_nil {seen : List Occurrence}
    (none : ∀ o ∈ seen, o.learnerCall? = none) : learnerCalls seen = [] :=
  List.filterMap_eq_nil_iff.mpr none

theorem learnerCalls_of_upkeep {seen : List Occurrence} (upkeep : ∀ o ∈ seen, o.Upkeep) :
    learnerCalls seen = [] := by
  apply learnerCalls_eq_nil
  intro o member
  cases upkeep o member <;> rfl

namespace ChoiceDeed

def call? : ChoiceDeed → Option LearnerCall
  | .updates reward => some (.update reward)
  | .chooses candidates index => some (.act candidates index)
  | _ => none

def isJudgement : ChoiceDeed → Bool
  | .judges .. => true
  | _ => false

def isHearing : ChoiceDeed → Bool
  | .hears _ => true
  | _ => false

/-- Whether the exit condition is to be judged after these deeds, the latest being the first: after
a reward that ends in no forced stop, and after a survey without candidates. -/
def due : List ChoiceDeed → Bool
  | .surveys [] :: _ => true
  | .hears false :: .updates _ :: _ => true
  | _ => false

/-- Whether it is open after these deeds, the latest being the first, if a reward ends in a forced
stop. -/
def uncertain : List ChoiceDeed → Bool
  | .updates _ :: .hears true :: _ => false
  | .updates _ :: _ => true
  | _ => false

/-- Whether these deeds, the latest being the first, are rightly followed by this one, or by none:
the exit condition is judged when it is due and at no other time, and after a reward the module
hears whether it must stop, if that is open. -/
def fits (past : List ChoiceDeed) (next : Option ChoiceDeed) : Bool :=
  next.any isJudgement == due past && (!uncertain past || next.any isHearing)

def Judicious (deeds : List ChoiceDeed) : Prop :=
  ∀ before after, deeds = before ++ after → fits before.reverse after.head? = true

def JudiciousAfter : List ChoiceDeed → List ChoiceDeed → Prop
  | past, [] => fits past none = true
  | past, deed :: rest => fits past (some deed) = true ∧ JudiciousAfter (deed :: past) rest

theorem JudiciousAfter.split {past deeds : List ChoiceDeed} (judicious : JudiciousAfter past deeds)
    {before after : List ChoiceDeed} (split : deeds = before ++ after) :
    fits (before.reverse ++ past) after.head? = true := by
  induction before generalizing past deeds with
  | nil =>
      rw [List.nil_append] at split
      subst split
      cases deeds with
      | nil => exact judicious
      | cons deed rest => exact judicious.1
  | cons deed rest ih =>
      subst split
      rw [List.reverse_cons, List.append_assoc]
      exact ih judicious.2 rfl

theorem JudiciousAfter.judicious {deeds : List ChoiceDeed} (judicious : JudiciousAfter [] deeds) :
    Judicious deeds := by
  intro before after split
  have fitting := judicious.split split
  rw [List.append_nil] at fitting
  exact fitting

end ChoiceDeed

theorem Surveys.calls {incoming : Substitution} {rules : List (Rule × Nat)}
    {candidates : List Candidate} {seen : List Occurrence}
    (surveys : Surveys incoming rules candidates seen) : learnerCalls seen = [] := by
  induction surveys with
  | nil => rfl
  | cons others ih => exact ih

namespace Activation

variable {now : Activation} {deed : ChoiceDeed} {deeds : List ChoiceDeed} {seen : List Occurrence}

/-- A choice is made among some candidates that have just been surveyed, and then the combo of the
chosen one runs with its own bindings and focus. An index beyond the candidates is a failure. -/
def Heeds (a : Activation) (deeds : List ChoiceDeed) (outcome : Outcome) : Prop :=
  ∀ candidates index, .chooses candidates index ∈ deeds →
    candidates ≠ [] ∧
      (∃ earlier, deeds = earlier ++ [.surveys candidates, .chooses candidates index]) ∧
      outcome = match candidates[index]? with
        | some choice => .yield (a.comboFrames choice.combo choice.substitution choice.focus)
        | none => .failed ⟨a.module.display, .learner a.module.name index candidates.length⟩

theorem Heeds.nil {a : Activation} {outcome : Outcome} : a.Heeds [] outcome := by
  intro candidates index member
  cases member

theorem Heeds.cons {a : Activation} {outcome : Outcome}
    (other : ∀ candidates index, deed ≠ .chooses candidates index) (heeds : a.Heeds deeds outcome) :
    a.Heeds (deed :: deeds) outcome := by
  intro candidates index member
  rcases List.mem_cons.mp member with rfl | later
  · exact absurd rfl (other candidates index)
  · obtain ⟨offered, ⟨earlier, last⟩, comes⟩ := heeds candidates index later
    refine ⟨offered, ⟨deed :: earlier, ?_⟩, comes⟩
    rw [last, List.cons_append]

theorem Shows.calls (shows : now.Shows deed seen) : learnerCalls seen = deed.call?.toList := by
  cases shows with
  | hears asked =>
      rcases asked with ⟨_, _, rfl⟩ | ⟨_, rfl⟩
      · rfl
      · rfl
  | @updates reward asked rest rewards upkeep =>
      have told : learnerCalls (.exchange (.learn now.module.name reward) () :: rest) =
          .update reward :: learnerCalls rest := rfl
      have silent : learnerCalls asked = [] := by
        rcases rewards with rfl | ⟨goals, rfl, _⟩
        · rfl
        · rfl
      rw [learnerCalls_append, silent, told, learnerCalls_of_upkeep upkeep]
      rfl
  | @judges performed holds judged rest judges upkeep =>
      have silent : learnerCalls judged = [] := by
        rcases judges.asks with rfl | rfl
        · rfl
        · rfl
      rw [learnerCalls_append, silent, learnerCalls_of_upkeep upkeep]
      rfl
  | surveys surveys => exact surveys.calls
  | balks mere =>
      apply learnerCalls_eq_nil
      intro o member
      rcases mere o member with upkeep | evaluation
      · cases upkeep <;> rfl
      · unfold Occurrence.isEvaluation at evaluation
        split at evaluation
        · rfl
        · cases evaluation
  | @chooses candidates index rest upkeep =>
      have told : learnerCalls (.exchange (.choose now.module.name candidates) index :: rest) =
          .act candidates index :: learnerCalls rest := rfl
      rw [told, learnerCalls_of_upkeep upkeep]
      rfl
  | leaves leaves =>
      obtain ⟨stopped, rest, rfl, upkeep, _⟩ := leaves
      have silent : learnerCalls rest = [] := learnerCalls_of_upkeep upkeep
      exact silent

theorem Tells.calls (tells : now.Tells deeds seen) :
    learnerCalls seen = deeds.filterMap ChoiceDeed.call? := by
  induction tells with
  | nil => rfl
  | @cons deed deeds seen more shows _ ih =>
      rw [learnerCalls_append, shows.calls, ih, List.filterMap_cons]
      cases deed.call? <;> rfl

/-- The candidates of a survey are what all rules make of the bindings of the module. -/
theorem Tells.surveyed (tells : now.Tells deeds seen) {candidates : List Candidate}
    (member : .surveys candidates ∈ deeds) :
    ∃ part, part <:+: seen ∧
      Surveys now.substitution now.module.rules.zipIdx candidates part := by
  induction tells with
  | nil => cases member
  | @cons deed deeds seen more shows _ ih =>
      rcases List.mem_cons.mp member with rfl | later
      · cases shows with
        | surveys surveys => exact ⟨seen, (List.prefix_append _ _).isInfix, surveys⟩
      · obtain ⟨part, within, surveys⟩ := ih later
        exact ⟨part, within.trans (List.suffix_append _ _).isInfix, surveys⟩

end Activation

def ChoiceStage.owes : ChoiceStage → Bool
  | .idle => false
  | .acted => true
  | .passed chose => chose

def ChoiceAwaiting.stage : ChoiceAwaiting → ChoiceStage
  | .nothing => .idle
  | .combo => .acted
  | .eventPass chose => .passed chose

theorem ChoiceState.absorb_stage {state : ChoiceState} {previous : Option RunResult}
    (heard : previous = none ↔ state.awaiting = .nothing) (b : Activation) :
    (state.absorb b previous).2 = state.awaiting.stage := by
  obtain ⟨awaiting⟩ := state
  cases previous with
  | none => rw [heard.mp rfl]; rfl
  | some r =>
      cases awaiting with
      | nothing => cases heard.mpr rfl
      | combo => rfl
      | eventPass chose => rfl

/-- A choice is still to be rewarded only while the module waits for what comes of it, or where
there has been a failure. -/
def Settled (calls : List LearnerCall) (next : ChoiceAwaiting) : Outcome → Prop
  | .yield _ => Alternates calls next.stage.owes
  | .done _ => Alternates calls false
  | .failed _ => ∃ owed, Alternates calls owed

theorem Alternates.settled {calls : List LearnerCall} {next : ChoiceAwaiting} {outcome : Outcome}
    (alternates : Alternates calls false) (ends : ∀ children, outcome ≠ .yield children) :
    Settled calls next outcome := by
  cases outcome with
  | yield children => exact absurd rfl (ends children)
  | done result => exact alternates
  | failed failure => exact ⟨false, alternates⟩

/-! ### Moves -/

namespace Setting

variable {S : Setting σ ω} {now : Activation} {deeds : List ChoiceDeed} {outcome : Outcome}
variable {next : ChoiceAwaiting} {stage : ChoiceStage} {calls : List LearnerCall}
variable {children : List Frame}

theorem Offers.settled (offers : S.Offers now deeds outcome next)
    (alternates : Alternates calls false) :
    Settled (calls ++ deeds.filterMap ChoiceDeed.call?) next outcome := by
  have silent : Alternates (calls ++ []) false := by
    rw [List.append_nil]
    exact alternates
  cases offers with
  | balks => exact ⟨false, silent⟩
  | exits ends => exact silent.settled ends
  | idles noEvents => exact silent
  | separates events => exact silent
  | chooses found => exact alternates.act
  | misses offered missing => exact ⟨true, alternates.act⟩

theorem Settles.settled (settles : S.Settles now deeds outcome next)
    (alternates : Alternates calls true) :
    Settled (calls ++ deeds.filterMap ChoiceDeed.call?) next outcome := by
  cases settles with
  | stops ends => exact alternates.update.settled ends
  | exits ends => exact alternates.update.settled ends
  | @goesOn reward deeds _ _ offers =>
      have rewarded : Alternates (calls ++ [.update reward]) false := alternates.update
      have settled := offers.settled rewarded
      rw [List.append_assoc] at settled
      exact settled

theorem ChoiceMove.settled (move : S.ChoiceMove now stage deeds outcome next)
    (alternates : Alternates calls stage.owes) :
    Settled (calls ++ deeds.filterMap ChoiceDeed.call?) next outcome := by
  have free (free : stage = .idle ∨ stage = .passed false) : Alternates calls false := by
    rcases free with rfl | rfl
    · exact alternates
    · exact alternates
  cases move with
  | quits ends => exact alternates.update.settled ends
  | separates events =>
      change Alternates (calls ++ []) true
      rw [List.append_nil]
      exact alternates
  | settles noEvents settles => exact settles.settled alternates
  | settlesLate settles => exact settles.settled alternates
  | stops idle ends =>
      apply Alternates.settled _ ends
      change Alternates (calls ++ []) false
      rw [List.append_nil]
      exact free idle
  | offers idle offers => exact offers.settled (free idle)

/-- A choice that stands is rewarded first of all, or once the event pass is done. -/
theorem ChoiceMove.rewards (move : S.ChoiceMove now stage deeds outcome next)
    (owes : stage.owes = true) :
    (∃ reward rest, deeds.filterMap ChoiceDeed.call? = .update reward :: rest) ∨
      (stage = .acted ∧ next = .eventPass true ∧ deeds.filterMap ChoiceDeed.call? = [] ∧
        ∃ frames, S.eventPass now = some frames ∧ outcome = .yield frames) := by
  have settling {deeds : List ChoiceDeed} (settles : S.Settles now deeds outcome next) :
      ∃ reward rest, deeds.filterMap ChoiceDeed.call? = .update reward :: rest := by
    cases settles with
    | stops ends => exact ⟨_, _, rfl⟩
    | exits ends => exact ⟨_, _, rfl⟩
    | goesOn offers => exact ⟨_, _, rfl⟩
  cases move with
  | quits ends => exact .inl ⟨_, _, rfl⟩
  | separates events => exact .inr ⟨rfl, rfl, rfl, _, events, rfl⟩
  | settles noEvents settles =>
      have first := settling settles
      exact .inl first
  | settlesLate settles => exact .inl (settling settles)
  | stops idle ends =>
      rcases idle with rfl | rfl
      · cases owes
      · cases owes
  | offers idle offers =>
      rcases idle with rfl | rfl
      · cases owes
      · cases owes

theorem Offers.judicious (offers : S.Offers now deeds outcome next) {past : List ChoiceDeed}
    (settled : ChoiceDeed.due past = false) (certain : ChoiceDeed.uncertain past = false) :
    ChoiceDeed.JudiciousAfter past deeds := by
  have opens {deed : ChoiceDeed} (other : deed.isJudgement = false) :
      ChoiceDeed.fits past (some deed) = true := by
    simp [ChoiceDeed.fits, settled, certain, other]
  cases offers with
  | balks => exact ⟨opens rfl, rfl⟩
  | exits ends => exact ⟨opens rfl, rfl, rfl, rfl⟩
  | idles noEvents => exact ⟨opens rfl, rfl, rfl⟩
  | separates events => exact ⟨opens rfl, rfl, rfl⟩
  | @chooses candidates index choice found =>
      cases candidates with
      | nil => cases found
      | cons candidate rest => exact ⟨opens rfl, rfl, rfl⟩
  | @misses candidates index offered missing =>
      cases candidates with
      | nil => exact absurd rfl offered
      | cons candidate rest => exact ⟨opens rfl, rfl, rfl⟩

theorem Settles.judicious (settles : S.Settles now deeds outcome next) {past : List ChoiceDeed}
    (begins : past = [] ∨ past = [.hears false]) : ChoiceDeed.JudiciousAfter past deeds := by
  rcases begins with rfl | rfl
  all_goals
    cases settles with
    | stops ends => exact ⟨rfl, rfl, rfl, rfl⟩
    | exits ends => exact ⟨rfl, rfl, rfl, rfl, rfl⟩
    | goesOn offers => exact ⟨rfl, rfl, rfl, offers.judicious rfl rfl⟩

theorem ChoiceMove.judicious (move : S.ChoiceMove now stage deeds outcome next) :
    ChoiceDeed.Judicious deeds := by
  apply ChoiceDeed.JudiciousAfter.judicious
  cases move with
  | quits ends => exact ⟨rfl, rfl, rfl, rfl⟩
  | separates events => exact ⟨rfl, rfl⟩
  | settles noEvents settles => exact ⟨rfl, settles.judicious (.inr rfl)⟩
  | settlesLate settles => exact settles.judicious (.inl rfl)
  | stops idle ends => exact ⟨rfl, rfl, rfl⟩
  | offers idle offers => exact ⟨rfl, offers.judicious rfl rfl⟩

private theorem eventPass_ne_nil {frames : List Frame} (events : S.eventPass now = some frames) :
    frames ≠ [] := by
  obtain ⟨_, event, _, rfl⟩ := exists_event events
  exact List.cons_ne_nil _ _

theorem Offers.pushes (offers : S.Offers now deeds (.yield children) next) :
    children = [] ↔ next = .nothing := by
  cases offers with
  | exits ends => exact absurd rfl (ends children)
  | idles noEvents => exact ⟨fun _ => rfl, fun _ => rfl⟩
  | separates events => exact ⟨fun empty => absurd empty (eventPass_ne_nil events), nofun⟩
  | chooses found => exact ⟨nofun, nofun⟩

theorem Settles.pushes (settles : S.Settles now deeds (.yield children) next) :
    children = [] ↔ next = .nothing := by
  cases settles with
  | stops ends => exact absurd rfl (ends children)
  | exits ends => exact absurd rfl (ends children)
  | goesOn offers => exact offers.pushes

/-- A module that goes on waits for something exactly if it has pushed children. -/
theorem ChoiceMove.pushes (move : S.ChoiceMove now stage deeds (.yield children) next) :
    children = [] ↔ next = .nothing := by
  cases move with
  | quits ends => exact absurd rfl (ends children)
  | separates events => exact ⟨fun empty => absurd empty (eventPass_ne_nil events), nofun⟩
  | settles noEvents settles => exact settles.pushes
  | settlesLate settles => exact settles.pushes
  | stops idle ends => exact absurd rfl (ends children)
  | offers idle offers => exact offers.pushes

theorem Offers.heeds (offers : S.Offers now deeds outcome next) : now.Heeds deeds outcome := by
  intro candidates index member
  cases offers with
  | balks => simp at member
  | exits ends => simp at member
  | idles noEvents => simp at member
  | separates events => simp at member
  | @chooses offered chosen choice found =>
      simp only [List.mem_cons, reduceCtorEq, ChoiceDeed.chooses.injEq, List.not_mem_nil, or_false,
        false_or] at member
      obtain ⟨rfl, rfl⟩ := member
      refine ⟨?_, ⟨[], rfl⟩, ?_⟩
      · rintro rfl
        cases found
      · rw [found]
  | @misses offered chosen some missing =>
      simp only [List.mem_cons, reduceCtorEq, ChoiceDeed.chooses.injEq, List.not_mem_nil, or_false,
        false_or] at member
      obtain ⟨rfl, rfl⟩ := member
      exact ⟨some, ⟨[], rfl⟩, by rw [missing]⟩

theorem Settles.heeds (settles : S.Settles now deeds outcome next) : now.Heeds deeds outcome := by
  cases settles with
  | stops ends => exact .cons nofun (.cons nofun (.cons nofun .nil))
  | exits ends => exact .cons nofun (.cons nofun (.cons nofun (.cons nofun .nil)))
  | goesOn offers => exact .cons nofun (.cons nofun (.cons nofun offers.heeds))

theorem ChoiceMove.heeds (move : S.ChoiceMove now stage deeds outcome next) :
    now.Heeds deeds outcome := by
  cases move with
  | quits ends => exact .cons nofun (.cons nofun (.cons nofun .nil))
  | separates events => exact .cons nofun .nil
  | settles noEvents settles => exact .cons nofun settles.heeds
  | settlesLate settles => exact settles.heeds
  | stops idle ends => exact .cons nofun (.cons nofun .nil)
  | offers idle offers => exact .cons nofun offers.heeds

end Setting

end CognitiveAgent
