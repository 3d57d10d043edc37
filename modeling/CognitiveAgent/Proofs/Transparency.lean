import CognitiveAgent.Proofs.Termination

/-!
Two runs side by side, and the observer of a run. If every pop of one history agrees with the same
pop in another setting, the two histories stay together for good, and so do the lives of two
agents. Main statement: what an observer makes of the events of a run has no influence on it.
-/

set_option autoImplicit false

namespace CognitiveAgent

variable {σ ω τ υ : Type}

theorem History.runs_alike {H : History σ ω} {K : History τ υ}
    {related : Situation σ ω → Situation τ υ → Prop} (start : H.start = K.start)
    (initial : related H.initial K.initial)
    (pops : ∀ n, Exec.Agree related (H.setting.pop (H.stack n)) (K.setting.pop (H.stack n)))
    (n : Nat) : H.stack n = K.stack n ∧ related (H.situation n) (K.situation n) := by
  induction n with
  | zero => exact ⟨start, initial⟩
  | succ n ih =>
      obtain ⟨same, together⟩ := ih
      have next : K.after (n + 1) = K.setting.pop (H.stack n) (K.situation n) := by
        rw [same]
        rfl
      obtain ⟨stack, situation⟩ := pops n _ _ together
      unfold History.stack History.situation
      rw [next]
      exact ⟨stack, situation⟩

theorem Life.runs_alike {L : Life σ ω} {M : Life τ υ}
    {related : Situation σ ω → Situation τ υ → Prop} (start : L.start = M.start)
    (initial : related L.initial M.initial)
    (steps : ∀ n, Exec.Agree related (L.setting.step (L.agent n)) (M.setting.step (L.agent n)))
    (n : Nat) :
    L.agent n = M.agent n ∧ L.report n = M.report n ∧
      related (L.situation n) (M.situation n) := by
  -- A step of the second agent is one of the first agent in the second setting.
  have runs : L.agent n = M.agent n ∧ related (L.situation n) (M.situation n) := by
    induction n with
    | zero => exact ⟨start, initial⟩
    | succ n ih =>
        obtain ⟨same, together⟩ := ih
        have next : M.setting.step (M.agent n) (M.situation n) =
            M.setting.step (L.agent n) (M.situation n) := by rw [same]
        obtain ⟨returned, later⟩ := steps n _ _ together
        rw [← next] at returned later
        exact ⟨congrArg Prod.fst returned, later⟩
  obtain ⟨same, together⟩ := runs
  refine ⟨same, ?_, together⟩
  unfold report
  rw [← same]
  exact congrArg Prod.snd (steps n _ _ together).1

def Situation.withRecord (s : Situation σ ω) (record : υ) : Situation σ υ :=
  ⟨s.world, record, s.random, s.entered⟩

/-- Two runs that differ only in the observer and in what it has noted so far have the same stack,
the same agent, the same reports and failures and the same world, random numbers and entered
modules after any number of steps, and in each step the same requests are made and answered. -/
theorem telemetry_transparent (S : Setting σ ω) (observe : σ → Occurrence → υ → υ)
    (situation : Situation σ ω) (record : υ) (n : Nat) :
    (∀ stack : CallStack,
      let H : History σ ω := ⟨S, stack, situation⟩
      let K : History σ υ := ⟨S.observedBy observe, stack, situation.withRecord record⟩
      H.stack n = K.stack n ∧ (H.situation n).Alike (K.situation n) ∧
        H.occurrences n = K.occurrences n) ∧
    ∀ agent : Agent,
      let L : Life σ ω := ⟨S, agent, situation⟩
      let M : Life σ υ := ⟨S.observedBy observe, agent, situation.withRecord record⟩
      L.agent n = M.agent n ∧ L.report n = M.report n ∧
        (L.situation n).Alike (M.situation n) ∧ L.occurrences n = M.occurrences n := by
  have mirrors := S.mirrors_observedBy observe
  have initial : situation.Alike (situation.withRecord record) := ⟨rfl, rfl, rfl⟩
  constructor
  · intro stack H K
    obtain ⟨same, alike⟩ := History.runs_alike (H := H) (K := K) rfl initial
      (fun n => mirrors.pop (H.stack n)) n
    refine ⟨same, alike, ?_⟩
    unfold History.occurrences Setting.occurrences
    rw [same, alike.unseen]
    rfl
  · intro agent L M
    obtain ⟨same, reports, alike⟩ := Life.runs_alike (L := L) (M := M) rfl initial
      (fun n => mirrors.step (L.agent n)) n
    refine ⟨same, reports, alike, ?_⟩
    unfold Life.occurrences
    rw [same, alike.unseen]
    rfl

end CognitiveAgent
