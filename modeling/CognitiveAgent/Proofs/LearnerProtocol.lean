import CognitiveAgent.Proofs.GroundTurns
import CognitiveAgent.Proofs.LearnerCalls
import CognitiveAgent.Proofs.ListallChains
import CognitiveAgent.Proofs.OwnTurns
import CognitiveAgent.Proofs.Returns

/-!
The calls that a module makes of its learner over its whole life. Main statement: whatever the
learner and the world do, as long as the turns of the module return, every choice whose combo, and
the event pass behind it, come to an end without failure is rewarded once, before the next choice
and before the module leaves, and nothing else is rewarded. A turn returns unless a variable reaches
itself in what the module is given, or the combo that is chosen cannot be instantiated.
-/

set_option autoImplicit false

namespace CognitiveAgent

variable {σ ω : Type}

structure ChoiceLedger where
  awaiting : ChoiceAwaiting := .nothing
  calls : List LearnerCall := []

namespace History

variable {H : History σ ω} {a : Activation} {l after : ChoiceLedger} {below : List Frame}
variable {first k m n : Nat} {children : List Frame} {previous : Option RunResult}
variable {awaiting next : ChoiceAwaiting} {deeds : List ChoiceDeed} {outcome : Outcome}

inductive ChoiceTurn (H : History σ ω) (a : Activation) (below : List Frame) (n : Nat) :
    ChoiceAwaiting → List ChoiceDeed → Outcome → ChoiceAwaiting → Prop where
  | moves {now later : ModuleFrame} {b : Activation} {awaiting next : ChoiceAwaiting}
      {deeds : List ChoiceDeed} {outcome : Outcome} {entry rest : List Occurrence}
      (resumes : H.Resumes n (.module now) below (.module later) outcome)
      (keeps : a.Keeps b) (result : b.result = H.taken n (.module now))
      (noted : H.occurrences n = entry ++ rest) (upkeep : ∀ o ∈ entry, o.Upkeep)
      (tells : b.Tells deeds rest)
      (move : H.setting.ChoiceMove b awaiting.stage deeds outcome next) :
      ChoiceTurn H a below n awaiting deeds outcome next
  -- The module cannot be entered.
  | fails {now later : ModuleFrame} {failure : Failure}
      (resumes : H.Resumes n (.module now) below (.module later) (.failed failure))
      (upkeep : ∀ o ∈ H.occurrences n, o.Upkeep) :
      ChoiceTurn H a below n .nothing [] (.failed failure) .nothing

def ChoiceMoves (H : History σ ω) (a : Activation) (below : List Frame) (n : Nat)
    (l : ChoiceLedger) (outcome : Outcome) (after : ChoiceLedger) : Prop :=
  ∃ deeds next, H.ChoiceTurn a below n l.awaiting deeds outcome next ∧
    after = ⟨next, l.calls ++ deeds.filterMap ChoiceDeed.call?⟩

/-- What a module has done before turn `n`: the ledger is empty in its first turn, and each turn
moves it on. -/
def ChoiceRun (H : History σ ω) (a : Activation) (below : List Frame) (first n : Nat)
    (l : ChoiceLedger) : Prop :=
  H.Follows below first (H.ChoiceMoves a below) (fun l _ => l) {} n l

structure TracksChoices (H : History σ ω) (a : Activation) (l : ChoiceLedger) (n : Nat)
    (now : ModuleFrame) : Prop where
  strategy : now.strategy = .choices ⟨l.awaiting⟩
  keeps : a.Keeps (H.setting.present now)
  heard : (H.stack n).given = none ↔ l.awaiting = .nothing
  entered : now.activation.prepared = false → l.awaiting = .nothing

/-- A turn is a move, and the next turn, if there is one, finds the ledger in order again. -/
theorem Resumes.choiceTurn {now : ModuleFrame} {later : Frame}
    (resumes : H.Resumes n (.module now) below later outcome) (tracks : H.TracksChoices a l n now)
    (prepared : a.prepared = true) (clean : (H.stack n).failed = false) :
    ∃ deeds next, H.ChoiceTurn a below n l.awaiting deeds outcome next ∧
      ∀ children, outcome = .yield children → ∀ g, later = .module g → ∀ calls m,
        ((H.stack m).given = none ↔ children = []) → H.TracksChoices a ⟨next, calls⟩ m g := by
  have pursued (b : Activation) (entered : b.prepared = true) :
      (H.setting.traced.pursue b now.strategy (H.stack n).given).Logs fun left seen =>
        (∃ later deeds, left.1.strategy = .choices later ∧
          (now.strategy.absorb b (H.stack n).given).Tells deeds seen ∧
          H.setting.ChoiceMove (now.strategy.absorb b (H.stack n).given) l.awaiting.stage deeds
            left.2 later.awaiting) ∧
        b.Keeps left.1.activation := by
    have keeps := (H.setting.traced.pursue_returns entered now.strategy (H.stack n).given).mono
      fun _ served => served.1
    refine Exec.Logs.and_returns ?_ keeps
    rw [tracks.strategy]
    refine (H.setting.resumeChoices_moves b _ _).bind fun left seen turn => ?_
    obtain ⟨deeds, tells, move⟩ := turn
    rw [ChoiceState.absorb_stage tracks.heard] at move
    refine Exec.logs_pure ⟨left.2.1, deeds, rfl, ?_, move⟩
    rw [List.append_nil]
    exact tells
  obtain ⟨g, rfl, ⟨unprepared, ⟨failure, rfl⟩, upkeep⟩ |
    ⟨entry, rest, noted, upkeep, ⟨state, deeds, strategy, tells, move⟩, keeps⟩⟩ :=
    resumes.pursues clean pursued
  · refine ⟨[], .nothing, ?_, ?_⟩
    · rw [tracks.entered unprepared]
      exact .fails resumes upkeep
    · intro children impossible
      cases impossible
  · have absorbs : (H.setting.present now).Keeps
        (now.strategy.absorb (H.setting.present now) (H.stack n).given) := by
      rw [tracks.strategy]
      exact Setting.ChoiceState.absorb_keeps _ _ _
    refine ⟨deeds, state.awaiting, ?_, ?_⟩
    · exact .moves resumes (tracks.keeps.trans absorbs) (taken_present now).symm noted upkeep tells
        move
    · rintro children rfl g same calls m heard
      cases same
      have entered : g.activation.prepared = true :=
        (tracks.keeps.trans keeps).prepared prepared
      constructor
      · exact strategy
      · rw [Setting.present, if_pos entered]
        exact tracks.keeps.trans keeps
      · exact heard.trans move.pushes
      · intro unprepared
        rw [entered] at unprepared
        cases unprepared

private theorem Lifetime.tracksChoices_first {g : ModuleFrame}
    (lifetime : H.Lifetime (.module g) below first n)
    (adaptive : g.activation.module.strategy = .adaptive)
    (routed : H.setting.Routed (H.stack first)) :
    H.TracksChoices (H.setting.entered g.activation) {} first g := by
  obtain ⟨fresh, strategy, vacant⟩ := lifetime.opening routed
  rw [adaptive] at strategy
  constructor
  · exact strategy
  · rw [← fresh]
    exact .refl _
  · rw [vacant]
    exact ⟨fun _ => rfl, fun _ => rfl⟩
  · intro _
    rfl

/-! ### What a turn does -/

namespace ChoiceTurn

variable (turn : H.ChoiceTurn a below n awaiting deeds outcome next)

include turn

theorem calls : learnerCalls (H.occurrences n) = deeds.filterMap ChoiceDeed.call? := by
  cases turn with
  | moves resumes keeps result noted upkeep tells move =>
      rw [noted, learnerCalls_append, learnerCalls_of_upkeep upkeep, tells.calls]
      rfl
  | fails resumes upkeep => exact learnerCalls_of_upkeep upkeep

theorem settled {calls : List LearnerCall} (alternates : Alternates calls awaiting.stage.owes) :
    Settled (calls ++ deeds.filterMap ChoiceDeed.call?) next outcome := by
  cases turn with
  | moves resumes keeps result noted upkeep tells move => exact move.settled alternates
  | fails resumes upkeep =>
      refine ⟨false, ?_⟩
      rw [List.filterMap_nil, List.append_nil]
      exact alternates

theorem rewards (owes : awaiting.stage.owes = true) :
    (∃ reward rest, deeds.filterMap ChoiceDeed.call? = .update reward :: rest) ∨
      (awaiting = .combo ∧ next = .eventPass true ∧ deeds.filterMap ChoiceDeed.call? = [] ∧
        ∃ frames, H.setting.eventPass a = some frames ∧ outcome = .yield frames) := by
  cases turn with
  | moves resumes keeps result noted upkeep tells move =>
      rcases move.rewards owes with rewarded | ⟨acted, next, silent, frames, events, yields⟩
      · exact .inl rewarded
      · obtain ⟨_, _, rfl⟩ := keeps
        refine .inr ⟨?_, next, silent, frames, events, yields⟩
        cases awaiting with
        | combo => rfl
        | nothing | eventPass chose => cases acted
  | fails resumes upkeep => cases owes

theorem judicious : ChoiceDeed.Judicious deeds := by
  cases turn with
  | moves resumes keeps result noted upkeep tells move => exact move.judicious
  | fails resumes upkeep => exact ChoiceDeed.JudiciousAfter.judicious rfl

theorem heeds : a.Heeds deeds outcome := by
  cases turn with
  | moves resumes keeps result noted upkeep tells move =>
      have heeds := move.heeds
      obtain ⟨_, _, rfl⟩ := keeps
      exact heeds
  | fails resumes upkeep => exact .nil

/-- The candidates of a survey are what all rules, as declared, make of the bindings of the
module. -/
theorem surveyed {candidates : List Candidate} (member : .surveys candidates ∈ deeds) :
    ∃ part, part <:+: H.occurrences n ∧
      Surveys a.substitution a.module.rules.zipIdx candidates part := by
  cases turn with
  | moves resumes keeps result noted upkeep tells move =>
      obtain ⟨part, within, surveys⟩ := tells.surveyed member
      obtain ⟨_, _, rfl⟩ := keeps
      refine ⟨part, ?_, surveys⟩
      rw [noted]
      exact within.trans (List.suffix_append _ _).isInfix
  | fails resumes upkeep => cases member

end ChoiceTurn

theorem ChoiceRun.calls (choiceRun : H.ChoiceRun a below first n l) :
    (H.turns below first n).flatMap (fun i => learnerCalls (H.occurrences i)) = l.calls := by
  apply Follows.accounts choiceRun
  · rfl
  · rintro k m l _ children previous ⟨deeds, next, turn, rfl⟩ runs
    rw [turn.calls]

theorem ChoiceRun.alternates (choiceRun : H.ChoiceRun a below first n l) :
    Alternates l.calls l.awaiting.stage.owes := by
  apply Follows.invariant choiceRun
  · exact .nil
  · rintro k m l _ children previous alternates ⟨deeds, next, turn, rfl⟩ runs
    exact turn.settled alternates

/-- What a module that follows a learner has done before turn `n`, by its ledger, and does in it. -/
structure KeepsProtocol (H : History σ ω) (a : Activation) (below : List Frame) (first n : Nat)
    (l : ChoiceLedger) (deeds : List ChoiceDeed) (outcome : Outcome) (next : ChoiceAwaiting) :
    Prop where
  run : H.ChoiceRun a below first n l
  turn : H.ChoiceTurn a below n l.awaiting deeds outcome next
  earlier : (H.turns below first n).flatMap (fun i => learnerCalls (H.occurrences i)) = l.calls
  now : learnerCalls (H.occurrences n) = deeds.filterMap ChoiceDeed.call?
  alternates : Alternates l.calls l.awaiting.stage.owes
  settled : Settled (l.calls ++ learnerCalls (H.occurrences n)) next outcome
  rewards : l.awaiting.stage.owes = true →
    (∃ reward rest, learnerCalls (H.occurrences n) = .update reward :: rest) ∨
      (l.awaiting = .combo ∧ next = .eventPass true ∧ learnerCalls (H.occurrences n) = [] ∧
        ∃ frames, H.setting.eventPass a = some frames ∧ outcome = .yield frames)
  surveyed : ∀ candidates, .surveys candidates ∈ deeds → ∃ part, part <:+: H.occurrences n ∧
    Surveys a.substitution a.module.rules.zipIdx candidates part
  heeds : a.Heeds deeds outcome
  judicious : ChoiceDeed.Judicious deeds

/-- The learner is only ever asked to choose among some candidates, and these are the ones that have
been surveyed. -/
theorem KeepsProtocol.offers {deeds : List ChoiceDeed} {next : ChoiceAwaiting}
    (keeps : H.KeepsProtocol a below first n l deeds outcome next) {candidates : List Candidate}
    {index : Nat} (called : .act candidates index ∈ learnerCalls (H.occurrences n)) :
    candidates ≠ [] ∧ ∃ part, part <:+: H.occurrences n ∧
      Surveys a.substitution a.module.rules.zipIdx candidates part := by
  rw [keeps.now, List.mem_filterMap] at called
  obtain ⟨deed, done, shows⟩ := called
  have chosen : deed = .chooses candidates index := by
    cases deed with
    | chooses => cases shows; rfl
    | hears | updates | judges | surveys | balks | leaves => cases shows
  rw [chosen] at done
  obtain ⟨several, ⟨earlier, last⟩, _⟩ := keeps.heeds candidates index done
  refine ⟨several, keeps.surveyed candidates ?_⟩
  rw [last]
  exact List.mem_append_right earlier List.mem_cons_self

private theorem Lifetime.exists_choiceRun {g : ModuleFrame} (start : H.setting.Routed H.start)
    (unheard : H.start.previous = none) (single : H.start.depth ≤ 1)
    (adaptive : g.activation.module.strategy = .adaptive)
    (lifetime : H.Lifetime (.module g) below first n)
    (own : (H.stack n).depth = below.length + 1) (clean : (H.stack n).failed = false) :
    ∃ l now, (H.stack n).frames = .module now :: below ∧
      H.ChoiceRun (H.setting.entered g.activation) below first n l ∧
      H.TracksChoices (H.setting.entered g.activation) l n now := by
  obtain ⟨x, frames, same⟩ := lifetime.frames own
  cases x with
  | rule x | combo c | action x | hole => cases same
  | module now =>
      have opens := lifetime.tracksChoices_first adaptive (stack_routed start first)
      obtain ⟨l, choiceRun, tracks⟩ : ∃ l,
          H.ChoiceRun (H.setting.entered g.activation) below first n l ∧
            H.TracksChoices (H.setting.entered g.activation) l n now := by
        apply lifetime.exists_follows start unheard single frames clean opens
        intro k l old later children resumes tracks clean
        obtain ⟨deeds, next, turn, leads⟩ := resumes.choiceTurn tracks rfl clean
        exact ⟨_, ⟨deeds, next, turn, rfl⟩, leads children rfl later rfl _⟩
      exact ⟨l, now, frames, choiceRun, tracks⟩

private theorem TracksChoices.keepsProtocol {now : ModuleFrame} (tracks : H.TracksChoices a l n now)
    (choiceRun : H.ChoiceRun a below first n l) (prepared : a.prepared = true)
    (frames : (H.stack n).frames = .module now :: below) (clean : (H.stack n).failed = false) :
    ∃ deeds outcome next, H.KeepsProtocol a below first n l deeds outcome next := by
  obtain ⟨later, outcome, resumes⟩ := exists_resumes frames
  obtain ⟨deeds, next, turn, _⟩ := resumes.choiceTurn tracks prepared clean
  refine ⟨deeds, outcome, next, ?_⟩
  constructor
  · exact choiceRun
  · exact turn
  · exact choiceRun.calls
  · exact turn.calls
  · exact choiceRun.alternates
  · rw [turn.calls]
    exact turn.settled choiceRun.alternates
  · rw [turn.calls]
    exact turn.rewards
  · intro candidates member
    exact turn.surveyed member
  · exact turn.heeds
  · exact turn.judicious

theorem TracksChoices.acyclic {now : ModuleFrame} (tracks : H.TracksChoices a l n now)
    (acyclic : a.substitution.Acyclic) : ∀ s ∈ (Frame.module now).substitutions, s.Acyclic := by
  have own : now.activation.substitution = a.substitution := by
    rw [← tracks.keeps.substitution, Setting.present]
    split <;> rfl
  intro s holds
  rcases List.mem_cons.mp holds with same | planned
  · rw [same, own]
    exact acyclic
  · rw [tracks.strategy] at planned
    cases planned

/-- The calls of the learner that a module makes in its turns, however the learner chooses. The
learner is only ever asked to choose among some candidates, which are all instantiations of all
rules in the order of their declaration. A turn returns if no variable reaches itself in what the
module has been given and in what it is answered, and if the combo of the candidate that is chosen
can be instantiated. If it returns, that candidate is run with its own bindings and focus; an index
beyond the candidates is a failure. Choices and rewards alternate: a choice that is followed without
failure is rewarded before the next one and before the module leaves, and nothing else is rewarded.
The exit condition is judged after each reward that ends in no forced stop and after each survey
without candidates, and at no other time. -/
theorem learner_protocol (S : Setting σ ω) {f : ModuleFrame} (fresh : f.Fresh)
    (situation : Situation σ ω) {g : ModuleFrame} {below : List Frame} {first n : Nat}
    (adaptive : g.activation.module.strategy = .adaptive)
    (lifetime : (ofModule S f situation).Lifetime (.module g) below first n)
    (own : ((ofModule S f situation).stack n).depth = below.length + 1) :
    let H := ofModule S f situation
    let a := S.entered g.activation
    (∀ candidates index, .act candidates index ∈ learnerCalls (H.occurrences n) →
      candidates ≠ [] ∧ ∃ part, part <:+: H.occurrences n ∧
        Surveys a.substitution a.module.rules.zipIdx candidates part) ∧
    ((H.after? n).isSome = true → a.substitution.Acyclic → (∀ o ∈ H.occurrences n, o.Tame) →
      (H.after? (n + 1)).isSome = true) ∧
    ((H.after? (n + 1)).isSome = true →
      ((H.stack n).failed = false ∧
          ∃ l deeds outcome next, H.KeepsProtocol a below first n l deeds outcome next) ∨
        ((H.stack n).failed = true ∧ H.occurrences n = [] ∧ (H.stack (n + 1)).frames = below)) := by
  intro H a
  have start : H.setting.Routed H.start := .ready (.bottom f) fresh.waits
  cases failed : (H.stack n).failed with
  | true =>
      obtain ⟨x, frames, _⟩ := lifetime.frames own
      obtain ⟨later, outcome, resumes⟩ := exists_resumes frames
      have silent := resumes.silent failed
      refine ⟨?_, fun reached _ _ => ?_, fun _ => .inr ⟨rfl, silent, ?_⟩⟩
      · rw [silent]
        exact fun candidates index called => absurd called List.not_mem_nil
      · exact after?_succ_of_pop? reached (H.setting.pop?_of_failed failed _)
      · obtain ⟨failure, rfl⟩ := resumes.failed failed
        rw [resumes.stack_succ]
        rfl
  | false =>
      obtain ⟨l, now, frames, choiceRun, tracks⟩ :=
        lifetime.exists_choiceRun start rfl (Nat.le_refl 1) adaptive own failed
      obtain ⟨deeds, outcome, next, keeps⟩ := tracks.keepsProtocol choiceRun rfl frames failed
      refine ⟨fun _ _ => keeps.offers, fun reached acyclic tame => ?_,
        fun _ => .inl ⟨rfl, l, deeds, outcome, next, keeps⟩⟩
      have held : H.Tame n := by
        refine ⟨fun x top => ?_, tame⟩
        rw [frames, List.head?_cons, Option.mem_some_iff] at top
        rw [← top]
        exact tracks.acyclic acyclic
      exact held.after?_succ reached

def venturer : Module :=
  { Module.ofName "venturer" with
    strategy := .adaptive
    rules := [.ofKind .ifThen ⟨[⟨false, .belief, .atom "known"⟩]⟩ [.perform "act" []],
      .ofKind .ifThen ⟨[⟨false, .belief, .atom "known"⟩]⟩ [.insert (.atom "known")]]
    exit := .noAction }

def venturing : History Simulation.World Simulation.Trace :=
  ofModule (Simulation.setting ⟨[], none, some venturer, some (.ofName "events"), none⟩ .linear
    false) (.startMain venturer)
    (Simulation.situation { learner := .scripted [1] } ⟨Vector.replicate 8 0, 0⟩)

/-- The second rule is chosen in the first turn, which returns. After the event pass the choice is
rewarded, the exit condition is judged, no candidates are left, and the module leaves. -/
theorem learner_protocol_of_venturer :
    let a := venturing.setting.entered (ModuleFrame.startMain venturer).activation
    a.substitution.Acyclic ∧ (∀ o ∈ venturing.occurrences 0, o.Tame) ∧
    (venturing.after? 1).isSome = true ∧ (venturing.after? 11).isSome = true ∧
    ∃ l deeds outcome next, venturing.KeepsProtocol a [] 0 10 l deeds outcome next ∧
      l.calls.length = 1 ∧ (deeds.filterMap ChoiceDeed.call?).length = 1 := by
  intro a
  have stays : ∀ i, i < 11 → 0 < (venturing.stack i).depth := by decide +kernel
  have lifetime (n : Nat) (before : n < 11) :
      venturing.Lifetime (.module (.startMain venturer)) [] 0 n :=
    ⟨rfl, rfl, Nat.zero_le n, fun i _ upTo => stays i (by omega)⟩
  have acyclic : a.substitution.Acyclic := Substitution.acyclic_empty
  have tame : ∀ o ∈ venturing.occurrences 0, o.Tame := by
    have closed : ∀ o ∈ venturing.occurrences 0,
        o.Grounding ∧ ∀ c ∈ o.offered, c.substitution.IsClosed := by
      decide +kernel
    exact fun o occurs => (closed o occurs).1.tame (closed o occurs).2
  have returns : (venturing.after? 11).isSome = true := by decide +kernel
  have own : (venturing.stack 10).depth = 1 := by decide +kernel
  have clean : (venturing.stack 10).failed = false := by decide +kernel
  have earlier : ((venturing.turns [] 0 10).flatMap fun i =>
      learnerCalls (venturing.occurrences i)).length = 1 := by decide +kernel
  have now : (learnerCalls (venturing.occurrences 10)).length = 1 := by decide +kernel
  have first := (learner_protocol _ (.startMain venturer) _ rfl (lifetime 0 (by decide)) rfl).2.1
  refine ⟨acyclic, tame, first rfl acyclic tame, returns, ?_⟩
  have last := (learner_protocol _ (.startMain venturer) _ rfl (lifetime 10 (by decide)) own).2.2
  rcases last returns with ⟨_, l, deeds, outcome, next, keeps⟩ | ⟨failed, _⟩
  · refine ⟨l, deeds, outcome, next, keeps, ?_, ?_⟩
    · rw [← keeps.earlier]
      exact earlier
    · rw [← keeps.now]
      exact now
  · cases failed.symm.trans clean

/-- A main module whose learner is offered to wave and then to greet all who are present, and anyone
is. -/
def welcoming : History Simulation.World Simulation.Trace :=
  let host : Module :=
    { Module.ofName "host" with
      strategy := .adaptive
      rules := [{ rollCall with combo := .perform "wave" [] :: rollCall.combo }] }
  ofModule (Simulation.setting ⟨[], none, some host, none, none⟩ .linear false) (.startMain host)
    (Simulation.situation { mind := { beliefs := [.compound "present" [.var "L"]] } }
      ⟨Vector.replicate 8 0, 0⟩)

/-- The learner chooses the only candidate, but the turn never returns: its combo is told before it
runs, and the list of all who are present has no end. -/
theorem choice_unheeded :
    (∃ candidates index choice, .act candidates index ∈ learnerCalls (welcoming.occurrences 0) ∧
      candidates[index]? = some choice ∧ choice.resolves = false) ∧
    (welcoming.after? 0).isSome = true ∧ ∀ n, 0 < n → welcoming.after? n = none := by
  refine ⟨?_, rfl, fun n later => ?_⟩
  · have offered : (learnerCalls (welcoming.occurrences 0)).any (fun call =>
        call.chosen?.any fun choice => !choice.resolves) = true := by
      decide +kernel
    obtain ⟨call, called, chosen⟩ := List.any_eq_true.mp offered
    cases call with
    | update reward => cases chosen
    | act candidates index =>
        cases found : candidates[index]? with
        | none =>
            rw [LearnerCall.chosen?, found] at chosen
            cases chosen
        | some choice =>
            rw [LearnerCall.chosen?, found, Option.any_some, Bool.not_eq_true'] at chosen
            exact ⟨candidates, index, choice, called, found, chosen⟩
  · have never : (welcoming.after? 1).isNone = true := by decide +kernel
    refine Option.not_isSome_iff_eq_none.mp fun returned => ?_
    exact absurd (welcoming.iterates.lt_of_reached never returned) (Nat.not_lt.mpr later)

end History

end CognitiveAgent
