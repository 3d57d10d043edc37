import CognitiveAgent.Proofs.Exhaustion
import CognitiveAgent.Proofs.GroundRuns
import CognitiveAgent.Proofs.InnerModules
import CognitiveAgent.Proofs.ListallChains
import CognitiveAgent.Proofs.PlanSources

/-!
Programs in layers. The modules of such a program exit after every pass and call only modules of
lower layers, so nothing is repeated and no module calls itself through others. Main statement: if
no plan calls a module and every turn returns, as it does where answers are closed, every module of
the program leaves the stack, and every agent finishes.
-/

set_option autoImplicit false

namespace CognitiveAgent

variable {σ ω : Type}

/-- Every module exits after every pass, also one that is written out inside another, and what is
called by name from within a module, if there is such a module at all, has a lower rank. -/
structure Program.Layered (p : Program) (rank : Module → Nat) : Prop where
  exits : ∀ m ∈ p.registered, ∀ part ∈ m.parts, part.exit = .always
  descends : ∀ m ∈ p.registered, ∀ part ∈ m.parts, ∀ name ∈ part.calls,
    ∀ callee ∈ p.module? name, rank callee < rank m

namespace Program.Layered

variable {S : Setting σ ω} {rank : Module → Nat} {m : Module}

private theorem part_concludes (layered : S.program.Layered rank) (plain : S.PlansPlainly)
    (own : m ∈ S.program.registered)
    (lower : ∀ callee ∈ S.program.registered, rank callee < rank m → S.Concludes callee)
    (part : Module) (inside : part.parts ⊆ m.parts) : S.Concludes part := by
  -- A module inside the part is smaller than it, whatever it calls by name has a lower rank.
  induction size : sizeOf part using Nat.strongRecOn generalizing part with
  | ind size ih =>
      subst size
      have ends (callee : Module) (concludes : S.Concludes callee) (bindings : Substitution)
          (order : RuleOrder) (focus : Option Term) :
          S.Ends (.module (.start callee bindings (some order) focus)) none := by
        refine Setting.Concludes.module_ends (.start _ _ _ _) concludes plain ?_
        intro impossible
        cases impossible
      refine ⟨layered.exits m own part (inside Module.mem_parts), ?_⟩
      intro rule member action performed
      cases action with
      | user _ => exact Setting.endsAction_of_plain rfl
      | mental _ => exact Setting.endsAction_of_plain rfl
      | call target params source =>
          refine Setting.endsAction_of_callee fun callee found => ends callee ?_
          cases target with
          | inPlace _ =>
              cases found
              have deeper := Module.parts_of_inPlace member performed
              have within := List.Subset.trans deeper inside
              exact ih _ (Module.sizeOf_inPlace member performed) callee within rfl
          | named name =>
              have present : S.program.module? name = some callee := by
                cases known : S.program.module? name with
                | none => simp [Setting.callee, known] at found
                | some other => simpa [Setting.callee, known] using found
              refine lower callee (Program.mem_registered_of_module? present) ?_
              exact layered.descends m own part (inside Module.mem_parts) name
                (Module.mem_calls member performed) callee present

theorem concludes (layered : S.program.Layered rank) (plain : S.PlansPlainly)
    (own : m ∈ S.program.registered) : S.Concludes m := by
  induction level : rank m using Nat.strongRecOn generalizing m with
  | ind level ih =>
      subst level
      refine layered.part_concludes plain own ?_ m (List.Subset.refl _)
      intro callee known below
      exact ih (rank callee) below known rfl

theorem module_ends (layered : S.program.Layered rank) (plain : S.PlansPlainly) {f : ModuleFrame}
    (fresh : f.Fresh) (own : f.activation.module ∈ S.program.registered) :
    S.Ends (.module f) none := by
  refine Setting.Concludes.module_ends fresh (layered.concludes plain own) plain ?_
  intro _ event plays order
  have concludes := layered.concludes plain (Program.mem_registered_of_event plays)
  refine Setting.Concludes.module_ends (.start _ _ _ _) concludes plain ?_
  intro impossible
  cases impossible

end Program.Layered

/-! ### Agents -/

namespace Life

variable {L : Life σ ω} {m : Nat}

/-- A step that ends a phase: nothing is left on the stack, and the phase has failed or the next
one is due. -/
structure ClosesPhase (L : Life σ ω) (phase : Phase) (n : Nat) : Prop where
  empty : (L.agent (n + 1)).stack = .empty
  reports : (∃ failure, L.report n = .failed failure) ∧ (L.agent (n + 1)).phase = .finished ∨
    (L.agent (n + 1)).phase = phase.next

private theorem exists_closesPhase {k : Nat}
    (busy : ((L.agent m).poised L.setting.program).stack.isEmpty = false)
    (ends : ((L.pop m).stack k).isEmpty = true) :
    ∃ n, m ≤ n ∧ L.ClosesPhase ((L.agent m).poised L.setting.program).phase n := by
  -- The induction is on the pops that are left until the stack is empty.
  induction k generalizing m with
  | zero =>
      change ((L.agent m).poised L.setting.program).stack.isEmpty = true at ends
      rw [busy] at ends
      cases ends
  | succ k ih =>
      cases left : (L.setting.popped (L.agent m) (L.situation m)).stack.isEmpty with
      | true =>
          have stepped := Setting.step_closes busy left
          refine ⟨m, Nat.le_refl m, ?_, ?_⟩
          · rw [agent_succ, stepped]
            exact Setting.closePhase_stack left
          · rw [agent_succ, report, stepped]
            unfold Agent.closePhase
            split
            · exact .inr rfl
            · exact .inl ⟨⟨_, rfl⟩, rfl⟩
      | false =>
          have stepped : L.agent (m + 1) = L.setting.popped (L.agent m) (L.situation m) := by
            rw [agent_succ, Setting.step_goes_on busy left]
          have still : (L.agent (m + 1)).stack.isEmpty = false := by
            rw [stepped]
            exact left
          have same : (L.agent (m + 1)).poised L.setting.program = L.agent (m + 1) :=
            Setting.poised_of_busy still
          have next : L.pop (m + 1) = ⟨L.setting, (L.pop m).stack 1, (L.pop m).situation 1⟩ := by
            rw [pop, same, stepped, situation_succ, Setting.step_situation busy]
            rfl
          have rest : (L.pop (m + 1)).stack k = (L.pop m).stack (k + 1) := by
            rw [next, Nat.add_comm k 1]
            exact (congrArg Prod.fst (History.after_add (L.pop m) 1 k)).symm
          obtain ⟨n, later, closes⟩ := ih (by rw [same]; exact still) (rest ▸ ends)
          rw [same, stepped] at closes
          exact ⟨n, by omega, closes⟩

theorem finishes (ends : ∀ phase f, L.setting.program.opening phase = some f →
      L.setting.Ends (.module f) none)
    (empty : (L.agent m).stack = .empty) :
    ∃ n, (L.report n = .finished ∨ ∃ failure, L.report n = .failed failure) ∧
      ∀ later, n < later → L.report later = .finished := by
  -- The induction is on the phases that are still due.
  generalize phases : (L.agent m).pending L.setting.program = pending
  induction pending generalizing m with
  | nil =>
      refine ⟨m, .inl (stays_finished empty phases (Nat.le_refl m)).1, fun later after => ?_⟩
      exact (stays_finished empty phases (by omega)).1
  | cons phase rest ih =>
      obtain ⟨f, opens, enters, afterwards⟩ := Agent.enterPhase_of_cons phases
      have isEmpty : (L.agent m).stack.isEmpty = true := by rw [empty]; rfl
      have poised : (L.agent m).poised L.setting.program =
          { L.agent m with phase, stack := ⟨[.module f], none⟩ } := by
        rw [Agent.poised, isEmpty, if_pos rfl, enters, empty]
        rfl
      obtain ⟨completed, final, k, reached⟩ := ends phase f opens [] (L.situation m)
      have popped : ((L.pop m).stack k).isEmpty = true := by
        rw [pop, poised, History.stack, reached]
        rfl
      obtain ⟨n, _, closes⟩ := exists_closesPhase (by rw [poised]; rfl) popped
      rw [poised] at closes
      obtain ⟨nothing, ⟨failed, finished⟩ | next⟩ := closes
      · refine ⟨n, .inr failed, fun later after => ?_⟩
        have done : (L.agent (n + 1)).pending L.setting.program = [] := by
          rw [Agent.pending, finished]
          rfl
        exact (stays_finished nothing done after).1
      · refine ih nothing ?_
        rw [Agent.pending, next]
        exact afterwards

end Life

end CognitiveAgent
