import CognitiveAgent.Proofs.ModuleTurns
import CognitiveAgent.Proofs.OwnTurns
import CognitiveAgent.Proofs.Phases

/-!
The event module between the units of work of the main module. Such a unit is a pass, a choice of
the learner or a request for a plan. Main statement: unless it follows plans, the main module runs
the event module before each unit but the first. One that follows plans may ask for the next plan
without it.
-/

set_option autoImplicit false

namespace CognitiveAgent

variable {σ ω : Type}

def LearnerCall.isAct : LearnerCall → Bool
  | .act .. => true
  | .update _ => false

/-- The first rule of a pass has just been pushed: all other rules of the module are queued. -/
def CallStack.opensPass (stack : CallStack) : Bool :=
  match stack.frames with
  | .rule _ :: .module ⟨a, .passes state⟩ :: _ => state.queue.length + 1 == a.module.rules.length
  | _ => false

/-- How many units of its work a module begins in a turn that leaves the stack `after`. A pass over
no rules begins with every turn in which the module does not find itself told to stop. -/
def ModuleFrame.begun (g : ModuleFrame) (after : CallStack) (seen : List Occurrence) : Nat :=
  match g.strategy with
  | .passes _ =>
    if g.activation.module.rules.isEmpty then ((polls seen).head? == some false).toNat
    else after.opensPass.toNat
  | .choices _ => (learnerCalls seen).countP LearnerCall.isAct
  | .plans _ => (planAnswers seen).length

private theorem ModuleFrame.begun_append (g : ModuleFrame) (after : CallStack)
    {entry : List Occurrence} (upkeep : ∀ o ∈ entry, o.Upkeep) (seen : List Occurrence) :
    g.begun after (entry ++ seen) = g.begun after seen := by
  have silent := polls_of_silent fun o member => (upkeep o member).quiet.toCalm.toSilent
  simp only [begun, polls_append, silent, learnerCalls_append, learnerCalls_of_upkeep upkeep,
    planAnswers_append, planAnswers_of_upkeep upkeep, List.nil_append]

private theorem ModuleFrame.begun_nil (g : ModuleFrame) {after : CallStack}
    (closed : after.opensPass = false) : g.begun after [] = 0 := by
  unfold begun
  split
  · split
    · rfl
    · rw [closed]; rfl
  · rfl
  · rfl

def Activation.announcement (a : Activation) : Occurrence :=
  .event { channel := .moduleEntry, subject := a.module.display, source := a.module.source
           template := "entered %s with %s"
           arguments := [a.module.display, a.substitution.display] }

namespace History

def pop (H : History σ ω) (n : Nat) : History σ ω := ⟨H.setting, H.stack n, H.situation n⟩

def workBegun (P : History σ ω) : Nat :=
  match P.start.frames with
  | .module g :: _ => if g.activation.isMain then g.begun (P.stack 1) (P.occurrences 0) else 0
  | _ => 0

/-- The frame `f` is entered in turn `first` and completes without failure in turn `last`. -/
def RunsThrough (pops : Nat → History σ ω) (f : ModuleFrame) (first last : Nat) : Prop :=
  ∃ below g r, first ≤ last ∧ g.origin = f ∧ (pops first).start.frames = .module f :: below ∧
    f.activation.announcement ∈ (pops first).occurrences 0 ∧
    (∀ i, first ≤ i → i ≤ last → below.length < (pops i).start.depth) ∧
    (pops last).Completes 0 (.module g) below (.ok r)

private theorem exists_of_workBegun {P : History σ ω} (begins : 0 < P.workBegun) :
    ∃ g below, P.start.frames = .module g :: below ∧ g.activation.isMain = true ∧
      P.workBegun = g.begun (P.stack 1) (P.occurrences 0) := by
  unfold workBegun at begins ⊢
  split at begins
  · rename_i g below frames
    split at begins
    · rename_i main
      exact ⟨g, below, frames, main, if_pos main⟩
    · cases begins
  · cases begins

end History

/-! ### Turns -/

namespace Setting

variable {S : Setting σ ω} {now : Activation} {outcome : Outcome} {children frames : List Frame}

private theorem eventPass_of_main {a : Activation} {event : Module} (main : a.isMain = true)
    (plays : S.program.event = some event) :
    S.eventPass a =
      some [.hole, .hole, .hole, .module (.start event .empty (some a.order) none)] := by
  rw [eventPass, if_pos main, plays]
  rfl

section Passes

variable {state later : PassState} {closes : Bool} {left : Activation} {seen : List Occurrence}

/-- A pass that is closed after the turn has been separated from the next one. -/
theorem PassTurn.separated (turn : S.PassTurn now state closes (left, later, outcome) seen)
    (yields : outcome = .yield children) (closed : later.isOpen = false)
    (events : S.eventPass now = some frames) : children = frames := by
  cases turn with
  | stops cause departs => exact absurd yields (departs.ends children)
  | exits running ends judges departs => exact absurd yields (departs.ends children)
  | tries => cases closed
  | reopens => cases closed
  | separates running ends judges quiet pass =>
      cases yields
      exact Option.some.inj (pass.symm.trans events)
  | idles running goesOn nothing judges quiet noEvents => cases noEvents.symm.trans events
  | @recloses _ _ _ _ ended running closes ruleless judges quiet ends =>
      obtain ⟨now, state, result⟩ := ended
      rcases ends with ⟨_, outcome, same, departs⟩ | ⟨_, _, _, ⟨frames, pass, same⟩ | ⟨noEvents, _⟩⟩
      · cases same
        exact absurd yields (departs.ends children)
      · cases same
        cases yields
        exact Option.some.inj (pass.symm.trans events)
      · cases noEvents.symm.trans events

def PassFits (rules : List Rule) (state : PassState) : Prop :=
  state.isOpen = true → state.queue.length < rules.length

theorem Arranges.fits {rule : Rule} {index : Nat} {rest : List (Rule × Nat)}
    (arranges : now.Arranges ((rule, index) :: rest)) : rest.length < now.module.rules.length := by
  have length := arranges.1.length_eq
  rw [List.length_zipIdx, List.length_cons] at length
  omega

theorem PassTurn.fits (turn : S.PassTurn now state closes (left, later, outcome) seen)
    (yields : outcome = .yield children) (fits : PassFits now.module.rules state) :
    PassFits now.module.rules later := by
  intro isOpen
  cases turn with
  | stops cause departs => exact absurd yields (departs.ends children)
  | exits running ends judges departs => exact absurd yields (departs.ends children)
  | tries running goesOn next =>
      rcases next with ⟨opened, same⟩ | ⟨_, arranges⟩
      · have shorter := fits opened
        rw [same, List.length_cons] at shorter
        exact Nat.lt_of_succ_lt shorter
      · exact Arranges.fits arranges
  | reopens running ends judges quiet noEvents arranges => exact Arranges.fits arranges
  | separates => cases isOpen
  | idles => cases isOpen
  | @recloses _ _ _ _ ended running closes ruleless judges quiet ends =>
      obtain ⟨now, state, result⟩ := ended
      rcases ends with ⟨_, outcome, same, departs⟩ | ⟨_, _, _, ⟨frames, pass, same⟩ | ⟨_, same⟩⟩
      · cases same
        exact absurd yields (departs.ends children)
      · cases same
        cases isOpen
      · cases same
        cases isOpen

/-- With an event module, the first rule of a pass is tried only in a turn between two passes. -/
theorem PassTurn.closed_of_opensPass {event : Module}
    (turn : S.PassTurn now state closes (left, later, outcome) seen)
    (fits : PassFits now.module.rules state) (main : now.isMain = true)
    (plays : S.program.event = some event)
    (opens : (CallStack.settle [] (.module ⟨left, .passes later⟩) outcome).opensPass = true) :
    state.isOpen = false := by
  have events (a : Activation) (main : a.isMain = true) := eventPass_of_main main plays
  have departed {a : Activation} {seen : List Occurrence} (departs : a.Departs outcome seen) :
      False := by
    obtain ⟨result, final⟩ := Outcome.exists_result departs.ends
    rw [CallStack.settle_result final] at opens
    cases opens
  cases turn with
  | stops cause departs => exact (departed departs).elim
  | exits running ends judges departs => exact (departed departs).elim
  | @tries _ _ rest running goesOn next =>
      rcases next with ⟨opened, same⟩ | ⟨closed, _⟩
      · have shorter := fits opened
        rw [same, List.length_cons] at shorter
        have full : rest.length + 1 = now.module.rules.length := beq_iff_eq.mp opens
        omega
      · exact closed
  | separates running ends judges quiet pass =>
      cases pass.symm.trans (events _ main)
      cases opens
  | reopens running ends judges quiet noEvents => cases noEvents.symm.trans (events _ main)
  | idles running goesOn nothing judges quiet noEvents =>
      cases noEvents.symm.trans (events _ main)
  | @recloses _ _ _ _ ended running closes ruleless judges quiet ends =>
      refine Bool.eq_false_iff.mpr fun opened => ?_
      have shorter := fits opened
      rw [ruleless] at shorter
      cases shorter

end Passes

section Choices

variable {deeds : List ChoiceDeed} {next : ChoiceAwaiting} {stage : ChoiceStage}

private theorem Offers.separated (offers : S.Offers now deeds outcome next)
    (yields : outcome = .yield children) (other : next ≠ .combo)
    (events : S.eventPass now = some frames) : children = frames := by
  cases offers with
  | balks => cases yields
  | exits ends => exact absurd yields (ends children)
  | idles noEvents => cases noEvents.symm.trans events
  | separates pass =>
      cases yields
      exact Option.some.inj (pass.symm.trans events)
  | chooses => exact absurd rfl other
  | misses => cases yields

private theorem Settles.separated (settles : S.Settles now deeds outcome next)
    (yields : outcome = .yield children) (other : next ≠ .combo)
    (events : S.eventPass now = some frames) : children = frames := by
  cases settles with
  | stops ends => exact absurd yields (ends children)
  | exits ends => exact absurd yields (ends children)
  | goesOn offers => exact offers.separated yields other events

/-- Unless something has been chosen in the turn, the event module is run. -/
theorem ChoiceMove.separated (move : S.ChoiceMove now stage deeds outcome next)
    (yields : outcome = .yield children) (other : next ≠ .combo)
    (events : S.eventPass now = some frames) : children = frames := by
  cases move with
  | quits ends => exact absurd yields (ends children)
  | separates pass =>
      cases yields
      exact Option.some.inj (pass.symm.trans events)
  | settles noEvents => cases noEvents.symm.trans events
  | settlesLate settles => exact settles.separated yields other events
  | stops free ends => exact absurd yields (ends children)
  | offers free offers => exact offers.separated yields other events

def choiceCount (deeds : List ChoiceDeed) : Nat :=
  (deeds.filterMap ChoiceDeed.call?).countP LearnerCall.isAct

private theorem Offers.choiceCount_le_one (offers : S.Offers now deeds outcome next) :
    choiceCount deeds ≤ 1 := by
  cases offers with
  | balks | exits | idles | separates => exact Nat.zero_le 1
  | chooses | misses => exact Nat.le_refl 1

private theorem Settles.choiceCount_le_one (settles : S.Settles now deeds outcome next) :
    choiceCount deeds ≤ 1 := by
  cases settles with
  | stops | exits => exact Nat.zero_le 1
  | goesOn offers => exact offers.choiceCount_le_one

private theorem ChoiceMove.choiceCount_le_one (move : S.ChoiceMove now stage deeds outcome next) :
    choiceCount deeds ≤ 1 := by
  cases move with
  | quits | separates | stops => exact Nat.zero_le 1
  | settles noEvents settles => exact settles.choiceCount_le_one
  | settlesLate settles => exact settles.choiceCount_le_one
  | offers free offers => exact offers.choiceCount_le_one

/-- With an event module, nothing is chosen in the turn after a chosen combo. -/
theorem ChoiceMove.acted_unchosen (move : S.ChoiceMove now .acted deeds outcome next)
    (events : S.eventPass now = some frames) : choiceCount deeds = 0 := by
  cases move with
  | quits => rfl
  | separates => rfl
  | settles noEvents => cases noEvents.symm.trans events
  | stops free => rcases free with impossible | impossible <;> cases impossible
  | offers free => rcases free with impossible | impossible <;> cases impossible

end Choices

end Setting

def StrategyState.kind : StrategyState → Strategy
  | .passes _ => .linear
  | .choices _ => .adaptive
  | .plans _ => .planning

private theorem StrategyState.kind_start (strategy : Strategy) :
    (start strategy).kind = strategy := by
  cases strategy <;> rfl

def StrategyState.isFree : StrategyState → Bool
  | .passes state => !state.isOpen
  | .choices state => state.awaiting != .combo
  | .plans _ => true

/-- The module does not follow plans, and if a pass is open, one of its rules has been tried. -/
structure ModuleFrame.Reacts (g : ModuleFrame) : Prop where
  kind : g.strategy.kind ≠ .planning
  fits : ∀ state, g.strategy = .passes state → Setting.PassFits g.activation.module.rules state

namespace Setting.Pursues

variable {S : Setting σ ω} {previous : Option RunResult}
variable {g later : ModuleFrame} {outcome : Outcome} {children : List Frame}
variable {seen : List Occurrence} {event : Module}

private theorem reacts
    (pursues : S.Pursues (S.present g) previous g.strategy (later, .yield children) seen)
    (same : later.origin = g.origin) (reacts : g.Reacts) : later.Reacts := by
  obtain ⟨kind, fits⟩ := reacts
  have module : later.activation.module = (S.present g).module := by
    have kept := congrArg (fun f : ModuleFrame => f.activation.module) same
    exact kept.trans (S.present_module g).symm
  rw [← S.present_module g] at fits
  generalize g.strategy = strategy at *
  cases pursues with
  | @passes state later left _ _ turn =>
      refine ⟨kind, fun other given => ?_⟩
      cases given
      have keeps := (PassState.absorb_keeps state (S.present g) previous).module
      have before : PassFits (state.absorb (S.present g) previous).1.module.rules
          { state with awaiting := .nothing } := by
        rw [keeps]
        exact fits state rfl
      rw [module, ← keeps]
      exact turn.fits rfl before
  | choices tells move =>
      refine ⟨kind, fun other given => ?_⟩
      cases given
  | plans turn => exact absurd rfl kind

/-- A module that is free after a turn has pushed the event module in it. -/
theorem separated
    (pursues : S.Pursues (S.present g) previous g.strategy (later, .yield children) seen)
    (main : g.activation.isMain = true) (plays : S.program.event = some event)
    (reacts : g.Reacts) (free : later.strategy.isFree = true) :
    ∃ order, children =
      [.hole, .hole, .hole, .module (.start event .empty (some order) none)] := by
  have kind := reacts.kind
  have entered := (S.present_isMain g).trans main
  generalize g.strategy = strategy at *
  cases pursues with
  | @passes state later _ _ _ turn =>
      have keeps := PassState.absorb_keeps state (S.present g) previous
      have closed : later.isOpen = false := by simpa [StrategyState.isFree] using free
      exact ⟨_, turn.separated rfl closed (eventPass_of_main (keeps.isMain.trans entered) plays)⟩
  | @choices state later _ _ _ _ tells move =>
      have keeps := ChoiceState.absorb_keeps state (S.present g) previous
      have other : later.awaiting ≠ .combo := by simpa [StrategyState.isFree] using free
      exact ⟨_, move.separated rfl other (eventPass_of_main (keeps.isMain.trans entered) plays)⟩
  | plans turn => exact absurd rfl kind

private theorem begun_le_one
    (pursues : S.Pursues (S.present g) previous g.strategy (later, outcome) seen)
    (reacts : g.Reacts) (after : CallStack) : g.begun after seen ≤ 1 := by
  have kind := reacts.kind
  unfold ModuleFrame.begun
  generalize g.strategy = strategy at *
  cases pursues with
  | passes turn =>
      change (if _ then _ else _) ≤ 1
      split <;> exact Bool.toNat_le _
  | choices tells move =>
      change List.countP _ _ ≤ 1
      rw [tells.calls]
      exact move.choiceCount_le_one
  | plans turn => exact absurd rfl kind

/-- A main module that begins a unit of its work is free before. -/
theorem free_of_begun
    (pursues : S.Pursues (S.present g) previous g.strategy (later, outcome) seen)
    (main : g.activation.isMain = true) (plays : S.program.event = some event)
    (reacts : g.Reacts) (heard : g.strategy.waits = true → previous ≠ none)
    (begins : 0 < g.begun (CallStack.settle [] (.module later) outcome) seen) :
    g.strategy.isFree = true := by
  obtain ⟨kind, fits⟩ := reacts
  have entered := (S.present_isMain g).trans main
  rw [← S.present_module g] at fits
  unfold ModuleFrame.begun at begins
  rw [← S.present_module g] at begins
  generalize g.strategy = strategy at *
  cases pursues with
  | @passes state later left _ _ turn =>
      have keeps := PassState.absorb_keeps state (S.present g) previous
      have before := fits state rfl
      suffices closed : state.isOpen = false by rw [StrategyState.isFree, closed]; rfl
      change 0 < (if _ then _ else _) at begins
      split at begins
      · rename_i ruleless
        refine Bool.eq_false_iff.mpr fun opened => ?_
        have shorter := before opened
        rw [List.isEmpty_iff.mp ruleless] at shorter
        cases shorter
      · rw [← keeps.module] at before
        refine turn.closed_of_opensPass before (keeps.isMain.trans entered) plays ?_
        cases opens : CallStack.opensPass _ with
        | true => rfl
        | false => rw [opens] at begins; cases begins
  | @choices state later _ _ _ _ tells move =>
      have keeps := ChoiceState.absorb_keeps state (S.present g) previous
      have events := eventPass_of_main (keeps.isMain.trans entered) plays
      simp only [StrategyState.isFree, bne_iff_ne]
      intro combo
      have waits : (StrategyState.choices state).waits = true := by
        rw [StrategyState.waits, combo]
        rfl
      obtain ⟨r, given⟩ := Option.ne_none_iff_exists'.mp (heard waits)
      have stage : (state.absorb (S.present g) previous).2 = .acted := by
        simp only [given, ChoiceState.absorb, combo]
      rw [stage] at move
      have calls : 0 < (learnerCalls seen).countP LearnerCall.isAct := begins
      rw [tells.calls] at calls
      exact absurd (move.acted_unchosen events) (Nat.ne_of_gt calls)
  | plans turn => exact absurd rfl kind

end Setting.Pursues

namespace Setting

variable (S : Setting σ ω)

private theorem prepare_announces (a : Activation) :
    (S.traced.prepare a).Logs fun left seen =>
      (∃ failure, left.2 = some failure) ∨ a.announcement ∈ seen := by
  have emits : (S.traced.emit .moduleEntry a.module.display a.module.source "entered %s with %s"
      [a.module.display, a.substitution.display]).Logs fun _ seen => a.announcement ∈ seen :=
    S.note_logs List.mem_cons_self
  refine Exec.Logs.bind (S.furnish_upkeep _) fun furnished before _ => ?_
  cases furnished with
  | error fault => exact Exec.logs_pure (.inl ⟨_, rfl⟩)
  | ok _ =>
      refine Exec.Logs.bind (enter_only _ Occurrence.Upkeep) fun _ between _ => ?_
      refine emits.bind fun _ seen told => Exec.logs_pure (.inr ?_)
      rw [List.append_nil]
      exact List.mem_append_right _ (List.mem_append_right _ told)

private theorem resumeModule_announces {g : ModuleFrame}
    (unprepared : g.activation.prepared = false) (previous : Option RunResult) :
    (S.traced.resumeModule g previous).Logs fun left seen =>
      (∃ failure, left.2 = .failed failure) ∨ g.activation.announcement ∈ seen := by
  unfold resumeModule
  rw [unprepared]
  refine (S.prepare_announces g.activation).bind fun entered before told => ?_
  obtain ⟨a, failed⟩ := entered
  cases failed with
  | some failure => exact Exec.logs_pure (.inl ⟨_, rfl⟩)
  | none =>
      refine (S.pursue_pursues a g.strategy previous).mono fun left seen _ => .inr ?_
      rcases told with ⟨_, impossible⟩ | told
      · cases impossible
      · exact List.mem_append_left _ told

end Setting

/-! ### Runs -/

private theorem Setting.Nested.below_of_main {S : Setting σ ω} {g : ModuleFrame}
    {below : List Frame}
    (nested : S.Nested (.module g :: below)) (main : g.activation.isMain = true) : below = [] := by
  have called {f child : Frame} {holes : Nat} (awaits : S.Awaits f holes child)
      (same : child = .module g.origin) : False := by
    have origin : g.origin.activation.isMain = true := main
    cases awaits with
    | module | events =>
        rw [← Frame.module.inj same] at origin
        cases origin
    | action | combo | rule | ownCombo => cases same
  cases nested with
  | bottom => rfl
  | above under awaits => exact (called awaits rfl).elim

namespace History

variable {H : History σ ω} {below children : List Frame} {g : ModuleFrame} {event : Module}
variable {i j k n : Nat}

theorem Completes.pop {f : Frame} {result : Except Failure RunResult}
    (completes : H.Completes n f below result) : (H.pop n).Completes 0 f below result := by
  obtain ⟨later, outcome, resumes, final⟩ := completes
  exact ⟨later, outcome, ⟨resumes.frames, resumes.returns⟩, final⟩

theorem Resumes.pursued {before : Frame}
    (resumes : H.Resumes k before below (.module g) (.yield children))
    (clean : (H.stack k).failed = false) :
    ∃ old seen, before = .module old ∧
      H.setting.Pursues (H.setting.present old) (H.stack k).given old.strategy
        (g, .yield children) seen := by
  obtain ⟨old, rfl⟩ : ∃ old, before = .module old := by
    have same := resumes.proper.1
    cases before with
    | module old => exact ⟨old, rfl⟩
    | rule g | combo c | action x | hole => cases same
  obtain ⟨left, same, ⟨_, ⟨_, impossible⟩, _⟩ | ⟨_, seen, _, _, pursues⟩⟩ :=
    resumes.pursues clean fun a _ => H.setting.pursue_pursues a old.strategy (H.stack k).given
  · cases impossible
  · cases same
    exact ⟨old, seen, rfl, pursues⟩

private theorem Lifetime.reacts {f : ModuleFrame} (start : H.setting.Routed H.start)
    (vacant : H.start.previous = none) (single : H.start.depth ≤ 1) {first : Nat}
    (lifetime : H.Lifetime (.module f) below first n)
    (frames : (H.stack n).frames = .module g :: below) (clean : (H.stack n).failed = false)
    (reacts : f.Reacts) : g.Reacts := by
  -- Back from each turn to the one before it.
  induction n using Nat.strongRecOn generalizing g with
  | ind n ih =>
      rcases lifetime.preceding start vacant single frames clean with
        rfl | ⟨k, before, children, after, resumes, runs⟩
      · cases (List.cons.inj (lifetime.opens.symm.trans frames)).1
        exact reacts
      · have earlier := Nat.le_of_lt runs.later
        have cleanThen := unfailed_of_le earlier clean
        obtain ⟨old, seen, rfl, pursues⟩ := resumes.pursued cleanThen
        exact pursues.reacts (Frame.module.inj resumes.proper.1)
          (ih k runs.later (lifetime.upTo after earlier) resumes.frames cleanThen)

private theorem pursues_of_begun (frames : (H.stack n).frames = [.module g])
    (clean : (H.stack n).failed = false)
    (begins : 0 < g.begun (H.stack (n + 1)) (H.occurrences n)) :
    ∃ later outcome seen, H.setting.Pursues (H.setting.present g) (H.stack n).given g.strategy
        (later, outcome) seen ∧
      g.begun (H.stack (n + 1)) (H.occurrences n) =
        g.begun (CallStack.settle [] (.module later) outcome) seen := by
  obtain ⟨left, outcome, resumes⟩ := exists_resumes frames
  rw [resumes.stack_succ] at begins ⊢
  obtain ⟨later, rfl, ⟨_, ⟨failure, rfl⟩, upkeep⟩ | ⟨entry, seen, noted, upkeep, pursues⟩⟩ :=
    resumes.pursues clean fun a _ => H.setting.pursue_pursues a g.strategy (H.stack n).given
  · have nothing := g.begun_append (CallStack.settle [] (.module later) (.failed failure)) upkeep []
    rw [List.append_nil, g.begun_nil rfl] at nothing
    rw [nothing] at begins
    cases begins
  · rw [noted, g.begun_append _ upkeep]
    exact ⟨later, outcome, seen, pursues, rfl⟩

private theorem Resumes.announces {later : Frame} {outcome : Outcome}
    (resumes : H.Resumes n (.module g) below later outcome)
    (unprepared : g.activation.prepared = false) (clean : (H.stack (n + 1)).failed = false) :
    g.activation.announcement ∈ H.occurrences n := by
  have logs : (H.setting.traced.resume (.module g) (H.stack n).previous).Logs fun left seen =>
      (∃ failure, left.2 = .failed failure) ∨ g.activation.announcement ∈ seen := by
    rw [Setting.resume_given _ _ (unfailed_of_le (Nat.le_succ n) clean)]
    refine ((H.setting.resumeModule_announces unprepared _).mono fun left seen told => ?_).map
    exact told
  rcases resumes.occurs logs with ⟨failure, rfl⟩ | told
  · rw [resumes.stack_succ] at clean
    cases clean
  · exact told

/-- What a module has pushed runs through before the module's next turn. -/
theorem Runs.runsThrough (holes : Nat) {f : ModuleFrame} {previous : Option RunResult}
    (runs : H.Runs below k (List.replicate holes .hole ++ [.module f]) previous j)
    (clean : (H.stack j).failed = false) (unprepared : f.activation.prepared = false) :
    ∃ first last, k < first ∧ last < j ∧ RunsThrough H.pop f first last := by
  generalize shape : List.replicate holes Frame.hole ++ [.module f] = children at runs
  cases runs with
  | nothing => simp at shape
  | @child main r delivery =>
      have solid : delivery.last.origin ≠ .hole :=
        Frame.ne_hole_of_origin delivery.last.origin_origin.symm delivery.solid
      obtain ⟨rfl, origin, _⟩ := holes_unique Frame.noConfusion solid shape
      obtain ⟨g, last⟩ : ∃ g, delivery.last = .module g := by
        cases last : delivery.last with
        | module g => exact ⟨g, rfl⟩
        | rule | combo | action | hole => rw [last] at origin; cases origin
      have frames : (H.stack (delivery.pushed + 1)).frames =
          .module f :: (List.replicate delivery.holes .hole ++ main :: below) := by
        rw [delivery.push.stack_succ, CallStack.settle_push, ← origin]
      obtain ⟨later, outcome, resumes⟩ := exists_resumes frames
      have early := delivery.later
      have told := resumes.announces unprepared (unfailed_of_le (by omega) clean)
      have completes := delivery.completes.pop
      rw [last] at completes
      have same : g.origin = f := by
        rw [last] at origin
        exact Frame.module.inj origin.symm
      refine ⟨delivery.pushed + 1, delivery.completed, Nat.lt_succ_self _, by omega, _, g, r,
        early, same, frames, told, ?_, completes⟩
      intro i after upTo
      have deep := delivery.stays i after upTo
      rw [List.length_append, List.length_replicate, List.length_cons]
      change _ < (H.stack i).depth
      omega

/-- A main module that begins a unit of its work is alone on the stack, and nothing has failed. -/
theorem alone_of_workBegun (start : H.setting.Routed H.start) (begins : 0 < (H.pop n).workBegun) :
    ∃ g, (H.stack n).frames = [.module g] ∧ (H.stack n).failed = false ∧
      g.activation.isMain = true ∧
      (H.pop n).workBegun = g.begun (H.stack (n + 1)) (H.occurrences n) := by
  obtain ⟨g, below, held, main, counted⟩ := exists_of_workBegun begins
  have frames : (H.stack n).frames = .module g :: below := held
  obtain rfl := ((stack_routed start n).nested frames Frame.noConfusion).below_of_main main
  refine ⟨g, frames, Bool.eq_false_iff.mpr fun failed => ?_, main, counted⟩
  obtain ⟨later, outcome, resumes⟩ := exists_resumes frames
  obtain ⟨failure, rfl⟩ := resumes.failed failed
  have none : g.begun (H.stack (n + 1)) (H.occurrences n) = 0 := by
    rw [resumes.silent failed, resumes.stack_succ]
    exact g.begun_nil rfl
  rw [counted] at begins
  exact absurd none (Nat.ne_of_gt begins)

theorem RunsThrough.shift {pops others : Nat → History σ ω} {f : ModuleFrame} {first last m : Nat}
    (through : RunsThrough pops f first last) (same : ∀ t, t ≤ last → pops t = others (m + t)) :
    RunsThrough others f (m + first) (m + last) := by
  obtain ⟨below, g, r, ordered, origin, frames, told, stays, completes⟩ := through
  rw [same first ordered] at frames told
  rw [same last (Nat.le_refl last)] at completes
  refine ⟨below, g, r, Nat.add_le_add_left ordered m, origin, frames, told, ?_, completes⟩
  intro i after upTo
  have time : m + (i - m) = i := by omega
  have deep := stays (i - m) (by omega) (by omega)
  rwa [same (i - m) (by omega), time] at deep

section Main

variable {main : Module} (start : H.start = ⟨[.module (.startMain main)], none⟩)
include start

private theorem routed_of_main : H.setting.Routed H.start := by
  rw [start]
  exact .ready (.bottom _) (ModuleFrame.Fresh.startMain main).waits

private theorem lifetime_of_main (frames : (H.stack n).frames = [.module g]) :
    H.Lifetime (.module (.startMain main)) [] 0 n := by
  refine ⟨rfl, congrArg CallStack.frames start, Nat.zero_le n, fun i _ upTo => ?_⟩
  refine List.length_pos_iff.mpr fun empty => ?_
  rw [stack_of_empty empty upTo, empty] at frames
  cases frames

private theorem reacts_of_main (frames : (H.stack n).frames = [.module g])
    (clean : (H.stack n).failed = false) (reacts : main.strategy ≠ .planning) : g.Reacts := by
  refine (lifetime_of_main start frames).reacts (routed_of_main start) ?_ ?_ frames clean ?_
  · rw [start]
  · rw [start]
    exact Nat.le_refl 1
  · refine ⟨(StrategyState.kind_start main.strategy).symm ▸ reacts, fun state given => ?_⟩
    intro isOpen
    change StrategyState.start main.strategy = _ at given
    cases strategy : main.strategy with
    | linear => rw [strategy] at given; cases given; cases isOpen
    | adaptive | planning => rw [strategy] at given; cases given

private theorem workBegun_le_one (reacts : main.strategy ≠ .planning) (n : Nat) :
    (H.pop n).workBegun ≤ 1 := by
  by_cases begins : 0 < (H.pop n).workBegun
  · obtain ⟨g, frames, clean, _, counted⟩ := alone_of_workBegun (routed_of_main start) begins
    rw [counted] at begins ⊢
    obtain ⟨later, outcome, seen, pursues, same⟩ := pursues_of_begun frames clean begins
    rw [same]
    exact pursues.begun_le_one (reacts_of_main start frames clean reacts) _
  · omega

/-- The run of the event module before a unit of work that is not the first. -/
theorem runsThrough_between (plays : H.setting.program.event = some event)
    (reacts : main.strategy ≠ .planning) (before : i < j) (earlier : 0 < (H.pop i).workBegun)
    (begins : 0 < (H.pop j).workBegun) :
    ∃ order first last, i < first ∧ last < j ∧
      RunsThrough H.pop (.start event .empty (some order) none) first last := by
  have routed := routed_of_main start
  obtain ⟨g, frames, clean, isMain, counted⟩ := alone_of_workBegun routed begins
  have vacant : H.start.previous = none := by rw [start]
  have single : H.start.depth ≤ 1 := by rw [start]; exact Nat.le_refl 1
  rcases (lifetime_of_main start frames).preceding routed vacant single frames clean with
    rfl | ⟨k, former, children, _, resumes, runs⟩
  · exact absurd before (Nat.not_lt_zero i)
  · have since : i ≤ k := by
      apply Nat.le_of_not_lt
      intro between
      obtain ⟨_, own, _⟩ := alone_of_workBegun routed earlier
      have deep := runs.apart between before
      rw [CallStack.depth, own] at deep
      exact absurd deep (Nat.lt_irrefl _)
    have cleanThen := unfailed_of_le (Nat.le_of_lt runs.later) clean
    obtain ⟨old, told, rfl, pursued⟩ := resumes.pursued cleanThen
    have free : g.strategy.isFree = true := by
      rw [counted] at begins
      obtain ⟨later, outcome, seen, pursues, same⟩ := pursues_of_begun frames clean begins
      refine pursues.free_of_begun isMain plays (reacts_of_main start frames clean reacts) ?_
        (same ▸ begins)
      intro waits unheard
      rcases (stack_routed routed j).taken frames clean with ⟨idle, _⟩ | ⟨_, _, given, _⟩
      · exact absurd (waits.symm.trans idle) Bool.noConfusion
      · cases unheard.symm.trans given
    have kept := congrArg (fun f : ModuleFrame => f.activation.isMain)
      (Frame.module.inj resumes.proper.1)
    obtain ⟨order, rfl⟩ := pursued.separated (kept.symm.trans isMain) plays
      (reacts_of_main start resumes.frames cleanThen reacts) free
    obtain ⟨first, last, pushed, ended, through⟩ := Runs.runsThrough 3 runs clean rfl
    exact ⟨order, first, last, Nat.lt_of_le_of_lt since pushed, ended, through⟩

end Main

end History

theorem Life.Spans.pops {L : Life σ ω} {m n i : Nat} {f : ModuleFrame} (spans : L.Spans m f n)
    (inside : m + i ≤ n) :
    (History.ofModule L.setting f (L.situation m)).pop i = L.pop (m + i) := by
  have here : (History.ofModule L.setting f (L.situation m)).situation i = L.situation (m + i) :=
    congrArg Prod.snd (spans.same i inside)
  rw [History.pop, spans.stack inside, here]
  rfl

/-- A main module that does not follow plans begins at most one unit of its work in a turn, and
between two units the event module is entered and runs through, in the history of the main module
and in every main phase of an agent. -/
theorem events_between_cycles (S : Setting σ ω) {main event : Module}
    (plays : S.program.event = some event) (reacts : main.strategy ≠ .planning)
    (situation : Situation σ ω) :
    (let H := History.ofModule S (.startMain main) situation
      ∀ j, (H.pop j).workBegun ≤ 1 ∧
        ∀ i, i < j → 0 < (H.pop i).workBegun → 0 < (H.pop j).workBegun →
          ∃ order first last, i < first ∧ last < j ∧
            History.RunsThrough H.pop (.start event .empty (some order) none) first last) ∧
    let L : Life σ ω := ⟨S, .start, situation⟩
    ∀ m n, L.Spans m (.startMain main) n → ∀ j, m ≤ j → j ≤ n → (L.pop j).workBegun ≤ 1 ∧
      ∀ i, m ≤ i → i < j → 0 < (L.pop i).workBegun → 0 < (L.pop j).workBegun →
        ∃ order first last, i < first ∧ last < j ∧
          History.RunsThrough L.pop (.start event .empty (some order) none) first last := by
  refine ⟨fun j => ⟨History.workBegun_le_one rfl reacts j, fun i before earlier begins =>
    History.runsThrough_between rfl plays reacts before earlier begins⟩, ?_⟩
  intro L m n spans j afterwards upTo
  let H := History.ofModule S (.startMain main) (L.situation m)
  have same {t : Nat} (after : m ≤ t) (upTo : t ≤ n) : H.pop (t - m) = L.pop t := by
    have time : m + (t - m) = t := Nat.add_sub_cancel' after
    have here := spans.pops (i := t - m) (by omega)
    rwa [time] at here
  rw [← same afterwards upTo]
  refine ⟨History.workBegun_le_one rfl reacts (j - m), fun i after before earlier begins => ?_⟩
  rw [← same after (by omega)] at earlier
  obtain ⟨order, first, last, late, ended, through⟩ :=
    History.runsThrough_between (H := H) rfl plays reacts (by omega) earlier begins
  refine ⟨order, m + first, m + last, by omega, by omega, ?_⟩
  exact through.shift fun t upTo => spans.pops (by omega)

def watching : Module :=
  { Module.ofName "watch" with
    strategy := .adaptive
    rules := [.ofKind .ifThen .always [.perform "look" []]]
    exit := .never }

def patrolling : Module :=
  { Module.ofName "patrol" with strategy := .planning, exit := .noAction }

/-- An agent with an event module. There is one plan, for a main module that follows plans. -/
def guarding (main : Module) : Life Simulation.World Simulation.Trace :=
  ⟨Simulation.setting ⟨[], none, some main, some (.ofName "events"), none⟩ .linear false, .start,
    Simulation.situation { planner := some [.plan [⟨.perform "walk" [], .empty⟩]] }
      ⟨Vector.replicate 8 0, 0⟩⟩

private theorem guarding_spans {main : Module} {n : Nat}
    (busy : ∀ i, i < n → ((guarding main).agent (i + 1)).stack.isEmpty = false) :
    (guarding main).Spans 0 (.startMain main) n := by
  induction n with
  | zero =>
      refine ⟨Nat.le_refl 0, ⟨.main, rfl⟩, fun i inside => ?_⟩
      obtain rfl : i = 0 := by omega
      rfl
  | succ n ih => exact (ih fun i before => busy i (by omega)).step (busy n (Nat.lt_succ_self n))

/-- The learner chooses in the first step and, after the event module, in the eleventh. -/
theorem events_between_cycles_of_watching :
    (guarding watching).Spans 0 (.startMain watching) 10 ∧
    ((guarding watching).pop 0).workBegun = 1 ∧ ((guarding watching).pop 10).workBegun = 1 ∧
    ∃ order first last, 0 < first ∧ last < 10 ∧
      History.RunsThrough (guarding watching).pop
        (.start (.ofName "events") .empty (some order) none) first last := by
  have reacts : watching.strategy ≠ .planning := by decide
  have spans : (guarding watching).Spans 0 (.startMain watching) 10 :=
    guarding_spans (by decide +kernel)
  have first : ((guarding watching).pop 0).workBegun = 1 := by decide +kernel
  have second : ((guarding watching).pop 10).workBegun = 1 := by decide +kernel
  have phase :=
    (events_between_cycles (guarding watching).setting rfl reacts (guarding watching).initial).2
  obtain ⟨_, between⟩ := phase 0 10 spans 10 (by omega) (by omega)
  refine ⟨spans, first, second, between 0 (by omega) (by omega) ?_ ?_⟩
  · exact Nat.lt_of_lt_of_eq Nat.zero_lt_one first.symm
  · exact Nat.lt_of_lt_of_eq Nat.zero_lt_one second.symm

-- If the module tries its rules in order instead, the second pass begins with the twelfth step.
example : (List.range 12).map (fun n =>
    ((guarding { watching with strategy := .linear }).pop n).workBegun) =
      1 :: List.replicate 10 0 ++ [1] := by decide +kernel

/-- A main module that follows plans asks for its second plan without having run the event module,
though nothing has failed. -/
theorem no_events_between_plans :
    (guarding patrolling).setting.program.event = some (.ofName "events") ∧
    (guarding patrolling).Spans 0 (.startMain patrolling) 5 ∧ (guarding patrolling).Unfailed 12 ∧
    ((guarding patrolling).pop 0).workBegun = 1 ∧ ((guarding patrolling).pop 5).workBegun = 1 ∧
    ∀ order first last, last < 5 → ¬ History.RunsThrough (guarding patrolling).pop
      (.start (.ofName "events") .empty order none) first last := by
  have names : ∀ i, i < 5 → ((guarding patrolling).pop i).start.innermost?.map
      (·.activation.module.name) = some "patrol" := by decide +kernel
  have unfailed : (guarding patrolling).Unfailed 12 :=
    Life.unfailed_of_reports (by decide +kernel) (by decide +kernel)
  refine ⟨rfl, guarding_spans (by decide +kernel), unfailed, by decide +kernel,
    by decide +kernel, ?_⟩
  rintro order first last early ⟨below, g, r, ordered, _, frames, _⟩
  have name := names first (by omega)
  rw [CallStack.innermost?, frames] at name
  have distinct : "events" ≠ "patrol" := by decide
  exact distinct (Option.some.inj name)

end CognitiveAgent
