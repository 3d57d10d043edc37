import CognitiveAgent.Proofs.EnteredModules

/-!
The phases of an agent as histories. Each phase begins with a fresh module frame on an empty stack,
and from then on the steps of the agent are the pops of that frame's own history. So what holds of
the history of every fresh module frame holds in the life of every agent.
-/

set_option autoImplicit false

namespace CognitiveAgent

variable {σ ω : Type}

namespace Program

variable {p : Program} {phase : Phase} {f : ModuleFrame}

theorem opening_inherited (opens : p.opening phase = some f) : f.activation.inherited = none := by
  obtain ⟨m, rfl | rfl⟩ := opening_cases opens <;> rfl

theorem opening_substitution (opens : p.opening phase = some f) :
    f.activation.substitution = .empty := by
  obtain ⟨m, rfl | rfl⟩ := opening_cases opens <;> rfl

end Program

namespace Life

variable {L : Life σ ω} {p : Phase} {f : ModuleFrame} {m n i : Nat}

/-- The steps from the one that follows `m` others to the one that follows `n` others are the first
pops of the frame `f`, with which a phase begins. -/
structure Spans (L : Life σ ω) (m : Nat) (f : ModuleFrame) (n : Nat) : Prop where
  ordered : m ≤ n
  opens : ∃ phase, L.setting.program.opening phase = some f
  same : ∀ i, m + i ≤ n → (History.ofModule L.setting f (L.situation m)).after i =
    (((L.agent (m + i)).poised L.setting.program).stack, L.situation (m + i))

theorem Spans.stack (spans : L.Spans m f n) (inside : m + i ≤ n) :
    (History.ofModule L.setting f (L.situation m)).stack i =
      ((L.agent (m + i)).poised L.setting.program).stack :=
  congrArg Prod.fst (spans.same i inside)

theorem Spans.occurrences (spans : L.Spans m f n) (inside : m + i ≤ n) :
    (History.ofModule L.setting f (L.situation m)).occurrences i = L.occurrences (m + i) := by
  have here : (History.ofModule L.setting f (L.situation m)).situation i = L.situation (m + i) :=
    congrArg Prod.snd (spans.same i inside)
  rw [occurrences_pop, History.occurrences, spans.stack inside, here]
  rfl

theorem Spans.fresh (spans : L.Spans m f n) : f.Fresh := by
  obtain ⟨phase, opens⟩ := spans.opens
  exact Program.opening_fresh opens

/-- The pop of the last of the steps. -/
theorem Spans.pop (spans : L.Spans m f n) :
    (History.ofModule L.setting f (L.situation m)).after (n - m + 1) = (L.pop n).after 1 := by
  have time : m + (n - m) = n := Nat.add_sub_cancel' spans.ordered
  have last := spans.same (n - m) (Nat.le_of_eq time)
  change L.setting.pop ((History.ofModule L.setting f (L.situation m)).after (n - m)).1
    ((History.ofModule L.setting f (L.situation m)).after (n - m)).2 = _
  rw [last, time]
  rfl

theorem Spans.unfailed (spans : L.Spans m f n) (unfailed : L.Unfailed (n + 1))
    (busy : ((L.agent n).poised L.setting.program).stack.isEmpty = false) :
    ((History.ofModule L.setting f (L.situation m)).stack (n - m + 1)).failed = false := by
  rw [History.stack, spans.pop]
  exact unfailed.pop busy

/-- A stack that is busy after a step has been left so by the pop of that step. -/
theorem popped_of_busy (busy : (L.agent (n + 1)).stack.isEmpty = false) :
    ((L.agent n).poised L.setting.program).stack.isEmpty = false ∧
      L.agent (n + 1) = L.setting.popped (L.agent n) (L.situation n) := by
  rw [agent_succ] at busy ⊢
  cases before : ((L.agent n).poised L.setting.program).stack.isEmpty with
  | true =>
      obtain ⟨empty, nothing⟩ := Setting.pending_of_unpoised before
      rw [Setting.step_finished empty nothing] at busy
      exact absurd (empty.symm.trans busy) Bool.noConfusion
  | false =>
      refine ⟨rfl, ?_⟩
      cases left : (L.setting.popped (L.agent n) (L.situation n)).stack.isEmpty with
      | false => rw [Setting.step_goes_on before left]
      | true =>
          rw [Setting.step_closes before left, Setting.closePhase_stack left] at busy
          cases busy

theorem Spans.step (spans : L.Spans m f n) (busy : (L.agent (n + 1)).stack.isEmpty = false) :
    L.Spans m f (n + 1) := by
  obtain ⟨before, popped⟩ := popped_of_busy busy
  refine ⟨Nat.le_succ_of_le spans.ordered, spans.opens, fun i inside => ?_⟩
  by_cases earlier : m + i ≤ n
  · exact spans.same i earlier
  · have here : i = n - m + 1 := by
      have ordered := spans.ordered
      omega
    have time : m + i = n + 1 := by omega
    rw [time, Setting.poised_of_busy busy, here, spans.pop, popped, situation_succ,
      Setting.step_situation before]
    rfl

/-- The phase `p` has begun with the frame `f` at the step that follows `m` others, and the step
that follows `n` others still belongs to it. -/
structure Conducts (L : Life σ ω) (p : Phase) (f : ModuleFrame) (m n : Nat) : Prop where
  opens : L.setting.program.opening p = some f
  began : (L.agent m).stack = .empty
  spans : L.Spans m f n
  busy : ((L.agent n).poised L.setting.program).stack.isEmpty = false
  phase : ((L.agent n).poised L.setting.program).phase = p

/-- A phase begins when the agent's stack is empty. -/
theorem conducts_here (empty : (L.agent n).stack = .empty)
    (busy : ((L.agent n).poised L.setting.program).stack.isEmpty = false) :
    ∃ p f, L.Conducts p f n n ∧
      (L.agent n).poised L.setting.program =
        { L.agent n with phase := p, stack := ⟨[.module f], none⟩ } := by
  have isEmpty : (L.agent n).stack.isEmpty = true := by rw [empty]; rfl
  cases next : (L.agent n).pending L.setting.program with
  | nil =>
      rw [Agent.poised, isEmpty, if_pos rfl, Agent.enterPhase_of_nil next] at busy
      exact absurd (isEmpty.symm.trans busy) Bool.noConfusion
  | cons p rest =>
      obtain ⟨f, opens, enters, _⟩ := Agent.enterPhase_of_cons next
      have poised : (L.agent n).poised L.setting.program =
          { L.agent n with phase := p, stack := ⟨[.module f], none⟩ } := by
        rw [Agent.poised, isEmpty, if_pos rfl, enters, empty]
        rfl
      have spans : L.Spans n f n := by
        refine ⟨Nat.le_refl n, ⟨p, opens⟩, fun i inside => ?_⟩
        have here : i = 0 := by omega
        subst here
        rw [Nat.add_zero, poised]
        rfl
      exact ⟨p, f, ⟨opens, empty, spans, busy, by rw [poised]⟩, poised⟩

/-- Every step of an agent that pops its stack belongs to a phase. -/
theorem exists_conducts (start : L.start = .start)
    (busy : ((L.agent n).poised L.setting.program).stack.isEmpty = false) :
    ∃ p f m, L.Conducts p f m n := by
  induction n with
  | zero =>
      have empty : (L.agent 0).stack = .empty := by
        change L.start.stack = .empty
        rw [start]
        rfl
      obtain ⟨p, f, conducts, _⟩ := conducts_here empty busy
      exact ⟨p, f, 0, conducts⟩
  | succ n ih =>
      -- Between two steps the stack is empty, and a phase begins, or the phase goes on.
      rcases sound start (n + 1) with empty | ⟨_, stillBusy⟩
      · obtain ⟨p, f, conducts, _⟩ := conducts_here empty busy
        exact ⟨p, f, n + 1, conducts⟩
      · obtain ⟨before, popped⟩ := popped_of_busy stillBusy
        obtain ⟨p, f, m, conducts⟩ := ih before
        refine ⟨p, f, m, conducts.opens, conducts.began, conducts.spans.step stillBusy, busy, ?_⟩
        rw [Setting.poised_of_busy stillBusy, popped]
        exact conducts.phase

theorem exists_spans (start : L.start = .start)
    (busy : ((L.agent n).poised L.setting.program).stack.isEmpty = false) :
    ∃ m f, L.Spans m f n := by
  obtain ⟨p, f, m, conducts⟩ := exists_conducts start busy
  exact ⟨m, f, conducts.spans⟩

/-- A step that pops nothing is silent. -/
theorem occurrences_of_idle (idle : ((L.agent n).poised L.setting.program).stack.isEmpty = true) :
    L.occurrences n = [] := by
  rw [occurrences_pop]
  exact L.setting.occurrences_of_empty (List.isEmpty_iff.mp idle) _

end Life

end CognitiveAgent
