import CognitiveAgent.Proofs.GroundRuns
import CognitiveAgent.Proofs.ListallChains

/-!
The signal to stop in runs that may never return. A module that is resumed while the signal is given
instantiates nothing but what it is entered with. Main statement: once the signal is given, each
module that is resumed leaves or fails, and if every pop returns, as it does where answers are
closed, the stack becomes empty; then an agent takes one step for each phase still to come.
-/

set_option autoImplicit false

namespace CognitiveAgent

variable {σ ω α β : Type}

theorem Occurrence.Upkeep.tame {o : Occurrence} (upkeep : o.Upkeep) : o.Tame := by
  cases upkeep <;> trivial

namespace Exec

/-- Unless it hears that there is no need to stop, the computation is answered nothing that could
keep it from returning. -/
def Restrained (computation : Exec σ (List Occurrence) α) : Prop :=
  computation.Logs fun _ seen => false ∉ polls seen → ∀ o ∈ seen, o.Tame

variable {computation : Exec σ (List Occurrence) α}

private theorem Only.restrained (only : computation.Only Occurrence.Tame) :
    computation.Restrained :=
  Logs.mono only fun _ _ tame _ => tame

theorem Restrained.bind {rest : α → Exec σ (List Occurrence) β} (first : computation.Restrained)
    (after : ∀ value, (rest value).Restrained) : (computation >>= rest).Restrained := by
  refine Logs.bind first fun value seen here => (after value).mono fun _ more there => ?_
  intro unheard o member
  rw [polls_append, List.mem_append, not_or] at unheard
  rcases List.mem_append.mp member with earlier | later
  · exact here unheard.1 o earlier
  · exact there unheard.2 o later

end Exec

namespace Setting

variable (S : Setting σ ω)

private theorem grows_mirrored {x : (υ : Type) → Setting σ υ → Exec σ υ α}
    (mirrored : ∀ {ω υ : Type} {T : Setting σ ω} {U : Setting σ υ}
      {related : Situation σ ω → Situation σ υ → Prop}, T.Mirrors U related →
        Exec.Agree related (x ω T) (x υ U)) : (x _ S.traced).Only fun _ => True := by
  intro s
  obtain ⟨seen, noted⟩ := (mirrored (S.mirrors_growing s.record) s s ⟨rfl, List.prefix_rfl⟩).2.2
  exact ⟨seen, noted.symm, fun _ _ => trivial⟩

/-- A module that must stop is restrained by what it does then. -/
theorem mustStop_restrained (a : Activation) {stops goesOn : Exec σ (List Occurrence) α}
    (stopping : stops.Restrained) (grows : goesOn.Only fun _ => True) :
    (do if ← S.traced.mustStop a then stops else goesOn).Restrained := by
  refine Exec.Logs.bind (S.mustStop_logs a) fun stop seen asked => ?_
  cases stop with
  | true =>
      refine stopping.mono fun _ more tame unheard o member => ?_
      rw [polls_append, List.mem_append, not_or] at unheard
      rcases List.mem_append.mp member with earlier | later
      · rcases asked with ⟨_, _, rfl⟩ | ⟨_, rfl⟩
        · cases earlier
        · rw [List.mem_singleton.mp earlier]
          trivial
      · exact tame unheard.2 o later
  | false =>
      -- It has heard that it need not stop.
      refine Exec.Logs.mono grows fun _ more _ unheard => absurd ?_ unheard
      rcases asked with ⟨_, impossible, _⟩ | ⟨_, rfl⟩
      · cases impossible
      · exact List.mem_cons_self

private theorem leaving_tame {ρ : Type} (a : Activation) (state : ρ) :
    (do let (left, outcome) ← S.traced.finish a
        return (left, state, outcome) :
      Exec σ (List Occurrence) (Activation × ρ × Outcome)).Only Occurrence.Tame := by
  have finished : (S.traced.finish a).Only Occurrence.Tame := by
    refine (S.finish_leaves a).mono fun _ _ leaves o member => ?_
    obtain ⟨stopped, rest, rfl, upkeep, _⟩ := leaves
    rcases List.mem_cons.mp member with rfl | later
    · trivial
    · exact (upkeep o later).tame
  exact finished.bind fun _ => Exec.only_pure _

private theorem reportReward_tame (a : Activation) :
    (S.traced.reportReward a).Only Occurrence.Tame := by
  have rewards : S.traced.rewardNow.Only Occurrence.Tame := by
    refine (S.ask_only fun _ => trivial).bind fun reward => ?_
    cases reward with
    | some reward => exact Exec.only_pure _
    | none =>
        refine (S.ask_only fun _ => trivial).bind fun goals => ?_
        cases goals <;> exact Exec.only_pure _
  refine rewards.bind fun reward => ?_
  exact (S.ask_only fun _ => trivial).bind fun _ => S.note_only trivial

section Strategies

variable (a : Activation)

private theorem offer_grows : (S.traced.offer a).Only fun _ => True :=
  S.grows_mirrored (x := fun _ T => T.offer a) fun mirrors => mirrors.offer a

private theorem nextPass_grows : (S.traced.nextPass a).Only fun _ => True :=
  S.grows_mirrored (x := fun _ T => T.nextPass a) fun mirrors => mirrors.nextPass a

private theorem exitHolds_grows : (S.traced.exitHolds a).Only fun _ => True :=
  S.grows_mirrored (x := fun _ T => T.exitHolds a) fun mirrors => mirrors.exitHolds a

private theorem replan_grows (state : PlanState) : (S.traced.replan a state).Only fun _ => True :=
  S.grows_mirrored (x := fun _ T => T.replan a state) fun mirrors => mirrors.replan a state

private theorem leaving_grows {ρ : Type} (state : ρ) :
    (do let (left, outcome) ← S.traced.finish a
        return (left, state, outcome) :
      Exec σ (List Occurrence) (Activation × ρ × Outcome)).Only fun _ => True :=
  (S.leaving_tame a state).mono fun _ _ => trivial

private theorem resumePasses_restrained (state : PassState) (previous : Option RunResult) :
    (S.traced.resumePasses a state previous).Restrained := by
  unfold resumePasses
  obtain ⟨now, closes⟩ := state.absorb a previous
  refine S.mustStop_restrained now (S.leaving_tame now _).restrained ?_
  have next (a : Activation) (state : PassState) : (S.traced.tryNext a state).Only fun _ => True :=
    S.grows_mirrored (x := fun _ T => T.tryNext a state) fun mirrors =>
      mirrors.toAccompanies.tryNext (mirrors.shufflesAlike _) state
  cases closes with
  | false => exact next now _
  | true =>
      refine (S.grows_mirrored (x := fun _ T => T.endPass now _) fun mirrors =>
        mirrors.endPass now _).bind fun ended => ?_
      obtain ⟨later, state, outcome⟩ := ended
      cases outcome with
      | some outcome => exact Exec.only_pure _
      | none => exact next later state

private theorem settle_restrained : (S.traced.settle a).Restrained := by
  refine (S.reportReward_tame a).restrained.bind fun _ => ?_
  refine S.mustStop_restrained a (S.leaving_tame a _).restrained ?_
  refine (S.exitHolds_grows a).bind fun holds => ?_
  cases holds with
  | true => exact S.leaving_grows a _
  | false => exact (S.nextPass_grows a).bind fun later => S.offer_grows later

private theorem resumeChoices_restrained (state : ChoiceState) (previous : Option RunResult) :
    (S.traced.resumeChoices a state previous).Restrained := by
  unfold resumeChoices
  obtain ⟨now, stage⟩ := state.absorb a previous
  cases stage with
  | idle => exact S.mustStop_restrained now (S.leaving_tame now _).restrained (S.offer_grows now)
  | passed chose =>
      cases chose with
      | true => exact S.settle_restrained now
      | false =>
          exact S.mustStop_restrained now (S.leaving_tame now _).restrained (S.offer_grows now)
  | acted =>
      refine S.mustStop_restrained now ?_ ?_
      · exact (S.reportReward_tame now).restrained.bind fun _ => (S.leaving_tame now _).restrained
      · cases S.traced.eventPass now with
        | some frames => exact Exec.only_pure _
        | none =>
            exact S.grows_mirrored (x := fun _ T => T.settle now) fun mirrors =>
              mirrors.settle now

private theorem resumePlans_restrained (state : PlanState) (previous : Option RunResult) :
    (S.traced.resumePlans a state previous).Restrained := by
  unfold resumePlans
  obtain ⟨now, state⟩ := state.absorb a previous
  refine S.mustStop_restrained now (S.leaving_tame now _).restrained ?_
  cases state.take? with
  | some taken =>
      exact (S.grows_mirrored (x := fun _ T => T.runStep now taken.1) fun mirrors =>
        mirrors.runStep now taken.1).bind fun _ => Exec.only_pure _
  | none =>
      cases state.plannedBefore with
      | false => exact S.replan_grows now _
      | true =>
          refine (S.exitHolds_grows now).bind fun holds => ?_
          cases holds with
          | true => exact S.leaving_grows now _
          | false => exact (S.nextPass_grows now).bind fun later => S.replan_grows later _

private theorem pursue_restrained (strategy : StrategyState) (previous : Option RunResult) :
    (S.traced.pursue a strategy previous).Restrained := by
  have finish {ρ : Type} {computation : Exec σ (List Occurrence) ρ}
      {form : ρ → ModuleFrame × Outcome} (restrained : computation.Restrained) :
      (computation >>= fun left => pure (form left)).Restrained :=
    restrained.bind fun _ => (Exec.only_pure _).restrained
  cases strategy with
  | passes state => exact finish (S.resumePasses_restrained a state previous)
  | choices state => exact finish (S.resumeChoices_restrained a state previous)
  | plans state => exact finish (S.resumePlans_restrained a state previous)

end Strategies

private theorem resumeModule_restrained (f : ModuleFrame) (previous : Option RunResult) :
    (S.traced.resumeModule f previous).Restrained := by
  unfold resumeModule
  split
  · exact S.pursue_restrained _ _ _
  · have prepared : (S.traced.prepare f.activation).Only Occurrence.Tame :=
      (S.prepare_upkeep f.activation).mono fun _ upkeep => upkeep.tame
    refine prepared.restrained.bind fun left => ?_
    obtain ⟨a, failure⟩ := left
    cases failure with
    | some failure => exact (Exec.only_pure _).restrained
    | none => exact S.pursue_restrained a f.strategy previous

private theorem resume_restrained (f : ModuleFrame) (previous : Option Completed) :
    (S.traced.resume (.module f) previous).Restrained := by
  have withResult (result : Option RunResult) :
      (S.traced.resumeWith (.module f) result).Restrained :=
    (S.resumeModule_restrained f result).bind fun _ => (Exec.only_pure _).restrained
  unfold resume
  cases previous with
  | none => exact withResult none
  | some completed =>
      dsimp only
      cases completed.result with
      | error failure => exact (Exec.only_pure _).restrained
      | ok result => exact withResult (some result)

end Setting

namespace History

variable {H : History σ ω} {n : Nat}

/-- A module that is resumed while the signal is given can be prepared, if it has to be, and
instantiates nothing else. -/
theorem Signalled.tame (signalled : H.Signalled n) {M : ModuleFrame} {below : List Frame}
    (frames : (H.stack n).frames = .module M :: below)
    (acyclic : ∀ s ∈ (Frame.module M).substitutions, s.Acyclic) : H.Tame n := by
  refine ⟨fun f top => ?_, ?_⟩
  · rw [frames, List.head?_cons, Option.mem_some_iff] at top
    rw [← top]
    exact acyclic
  · obtain ⟨later, outcome, resumes⟩ := exists_resumes frames
    refine resumes.occurs (H.setting.resume_restrained M (H.stack n).previous) fun lowered => ?_
    cases signalled false lowered

end History

namespace Life

variable {L : Life σ ω} {m n : Nat}

/-- A phase that is entered while the signal is given begins with nothing bound. -/
theorem Signalled.tame (signalled : L.Signalled n) (empty : (L.agent n).stack = .empty) :
    L.Tame n := by
  have isEmpty : (L.agent n).stack.isEmpty = true := by rw [empty]; rfl
  cases next : (L.agent n).pending L.setting.program with
  | nil =>
      have frames : ((L.pop n).stack 0).frames = [] := by
        change ((L.agent n).poised L.setting.program).stack.frames = []
        rw [Agent.poised, isEmpty, if_pos rfl, Agent.enterPhase_of_nil next, empty]
        rfl
      refine ⟨fun f top => ?_, ?_⟩
      · rw [frames] at top
        cases top
      · rw [History.occurrences, (L.pop n).setting.occurrences_of_empty frames]
        exact fun o member => absurd member List.not_mem_nil
  | cons phase rest =>
      obtain ⟨frame, opens, enters, _⟩ := Agent.enterPhase_of_cons next
      have frames : ((L.pop n).stack 0).frames = [.module frame] := by
        change ((L.agent n).poised L.setting.program).stack.frames = _
        rw [Agent.poised, isEmpty, if_pos rfl, enters, empty]
        rfl
      refine signalled.pop.tame frames fun s holds => ?_
      rcases List.mem_cons.mp holds with same | planned
      · rw [same, Program.opening_substitution opens]
        exact Substitution.acyclic_empty
      · have nothing : frame.strategy.planned = [] := by
          obtain ⟨m, rfl | rfl⟩ := Program.opening_cases opens <;>
            exact StrategyState.planned_start m.strategy
        rw [nothing] at planned
        cases planned

end Life

def endless : Module :=
  { Module.ofName "endless" with
    rules := [.ofKind .forallDo .always [.perform "act" [], .perform "act" []]], exit := .never }

/-- The module greets all who are present, and anyone is. The signal to stop is raised while it asks
who is. -/
def unheard : History Simulation.World Simulation.Trace :=
  .ofModule (Simulation.setting ⟨[], none, some hosting, none, none⟩ .linear false)
    (.startMain hosting)
    (Simulation.situation
      { mind := { beliefs := [.compound "present" [.var "L"]] }, stopAt := some 1 }
      ⟨Vector.replicate 8 0, 0⟩)

end CognitiveAgent
