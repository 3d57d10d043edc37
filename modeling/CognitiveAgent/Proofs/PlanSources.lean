import CognitiveAgent.Proofs.Transparency
import CognitiveAgent.Simulation.Trace

/-!
Worlds that give plans of one kind only. Whatever has been requested of such a world before, all
steps of the plans that it gives are of that kind. A run that begins in such a world never leaves
these worlds, so it is a run of a setting that has no other ones.
-/

set_option autoImplicit false

namespace CognitiveAgent

variable {σ ω : Type} {good : PlanStep → Prop}

namespace Setting

def worldAfter (S : Setting σ ω) (world : σ) (requests : List Request) : σ :=
  requests.foldl (fun world request => (S.respond request world).2) world

/-- All steps of the plans that the world gives, now and later, are good ones. -/
def PlansOnly (S : Setting σ ω) (good : PlanStep → Prop) (world : σ) : Prop :=
  ∀ requests m s plan, (S.respond (.plan m s) (S.worldAfter world requests)).1 = .ok (some plan) →
    ∀ step ∈ plan, good step

theorem PlansOnly.now {S : Setting σ ω} {world : σ} (only : S.PlansOnly good world) {m : Module}
    {s : Substitution} {plan : Plan}
    (answered : (S.respond (.plan m s) world).1 = .ok (some plan)) : ∀ step ∈ plan, good step :=
  only [] m s plan answered

theorem PlansOnly.later {S : Setting σ ω} {world : σ} (only : S.PlansOnly good world)
    (request : Request) : S.PlansOnly good (S.respond request world).2 :=
  fun requests => only (request :: requests)

/-- The same setting, with those worlds only that give no plans but of good steps. -/
def planningBy (S : Setting σ ω) (good : PlanStep → Prop) :
    Setting { world : σ // S.PlansOnly good world } ω where
  program := S.program
  defaultOrder := S.defaultOrder
  respond request world :=
    ((S.respond request world.1).1, ⟨(S.respond request world.1).2, world.2.later request⟩)
  observe world := S.observe world.1

end Setting

namespace Situation

variable {holds : σ → Prop}

def confined (s : Situation σ ω) (here : holds s.world) :
    Situation { world : σ // holds world } ω :=
  ⟨⟨s.world, here⟩, s.record, s.random, s.entered⟩

def released (s : Situation { world : σ // holds world } ω) : Situation σ ω :=
  ⟨s.world.1, s.record, s.random, s.entered⟩

end Situation

private theorem Setting.mirrors_planningBy (S : Setting σ ω) (good : PlanStep → Prop) :
    (S.planningBy good).Mirrors S fun s t => s.released = t where
  program := rfl
  defaultOrder := rfl
  ask _ _ _ same := by subst same; exact ⟨rfl, rfl⟩
  tell _ _ _ same := by subst same; exact ⟨rfl, rfl⟩
  log _ _ _ same := by subst same; exact ⟨rfl, rfl⟩
  shuffle _ _ _ same := by subst same; exact ⟨rfl, rfl⟩
  enter _ _ _ same := by subst same; exact ⟨rfl, rfl⟩
  leave _ _ _ same := by subst same; exact ⟨rfl, rfl⟩

section Runs

variable (S : Setting σ ω) {situation : Situation σ ω}

theorem History.stack_planningBy (only : S.PlansOnly good situation.world) (stack : CallStack)
    (n : Nat) :
    (⟨S.planningBy good, stack, situation.confined only⟩ : History _ ω).stack n =
      (⟨S, stack, situation⟩ : History σ ω).stack n := by
  have mirrors := S.mirrors_planningBy good
  refine (History.runs_alike (H := ⟨_, stack, situation.confined only⟩) (K := ⟨S, stack, situation⟩)
    rfl ?_ (fun _ => mirrors.pop _) n).1
  rfl

theorem Life.runs_planningBy (only : S.PlansOnly good situation.world) (agent : Agent) (n : Nat) :
    let L : Life _ ω := ⟨S.planningBy good, agent, situation.confined only⟩
    let M : Life σ ω := ⟨S, agent, situation⟩
    L.agent n = M.agent n ∧ L.report n = M.report n := by
  intro L M
  have mirrors := S.mirrors_planningBy good
  have together := Life.runs_alike (L := L) (M := M) rfl rfl (fun _ => mirrors.step _) n
  exact ⟨together.1, together.2.1⟩

end Runs

namespace Simulation

def World.Prepares (good : PlanStep → Prop) (w : World) : Prop :=
  ∀ steps, .plan steps ∈ w.planner.getD [] → ∀ step ∈ steps, good step

private theorem World.count_planner (request : Request) (w : World) :
    (w.count request).planner = w.planner := by
  unfold count
  split <;> rfl

/-- Only the planner itself uses up what is prepared. -/
theorem World.respond_planner (request : Request) (w : World) :
    (w.respond request).2.planner.getD [] ⊆ w.planner.getD [] := by
  rw [← w.count_planner request, respond]
  generalize w.count request = w
  cases request with
  | reward =>
      simp only [answer, reward]
      split
      · split <;> exact List.Subset.refl _
      · exact List.Subset.refl _
  | choose =>
      simp only [answer, choose]
      split <;> exact List.Subset.refl _
  | plan =>
      simp only [answer, plan]
      split
      · exact List.Subset.refl _
      · exact List.Subset.refl _
      · rename_i same
        rw [same]
        split <;> exact List.subset_cons_self _ _
  | _ => exact List.Subset.refl _

private theorem World.plan_prepared {w : World} {m : Module} {s : Substitution} {plan : Plan}
    (answered : (w.respond (.plan m s)).1 = .ok (some plan)) : .plan plan ∈ w.planner.getD [] := by
  rw [respond] at answered
  rw [← w.count_planner (.plan m s)]
  generalize w.count (.plan m s) = w at answered
  simp only [answer, World.plan] at answered
  split at answered
  · cases answered
  · cases answered
  · rename_i same
    rw [same]
    split at answered
    · cases answered
    · cases answered
      exact List.mem_cons_self
    · cases answered

theorem World.Prepares.plansOnly {w : World} (prepares : w.Prepares good) (program : Program)
    (order : RuleOrder) (events : Bool) : (setting program order events).PlansOnly good w := by
  intro requests m s plan answered
  refine prepares plan ?_
  clear prepares
  induction requests generalizing w with
  | nil => exact plan_prepared answered
  | cons request requests ih => exact w.respond_planner request (ih answered)

end Simulation

end CognitiveAgent
