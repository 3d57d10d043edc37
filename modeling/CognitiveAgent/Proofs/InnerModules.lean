import CognitiveAgent.Run.Agent

/-!
The modules that are written out in place inside other ones, at any depth, and the names that a
module calls. A program registers its listed modules and those that play a role in it.
-/

set_option autoImplicit false

namespace CognitiveAgent

mutual

def Module.inner : Module → List Module
  | ⟨_, _, rules, _, _, _, _, _, _, _, _⟩ => Rule.innerAll rules

def Rule.innerAll : List Rule → List Module
  | [] => []
  | rule :: rules => Rule.inner rule ++ Rule.innerAll rules

def Rule.inner : Rule → List Module
  | ⟨_, _, combo, _⟩ => Action.innerAll combo

def Action.innerAll : List Action → List Module
  | [] => []
  | action :: actions => Action.inner action ++ Action.innerAll actions

def Action.inner : Action → List Module
  | .call target _ _ => CallTarget.inner target
  | .user _ | .mental _ => []

def CallTarget.inner : CallTarget → List Module
  | .named _ => []
  | .inPlace body => body :: Module.inner body

end

def Module.parts (m : Module) : List Module := m :: m.inner

def Action.calledName? : Action → Option String
  | .call (.named name) _ _ => some name
  | .call (.inPlace _) _ _ | .user _ | .mental _ => none

def Module.calls (m : Module) : List String :=
  m.rules.flatMap fun rule => rule.combo.filterMap Action.calledName?

/-- The listed modules of a program and those that have a role. -/
def Program.registered (p : Program) : List Module :=
  p.modules ++ (p.init.toList ++ (p.main.toList ++ (p.event.toList ++ p.shutdown.toList)))

theorem Rule.mem_innerAll {m : Module} {rules : List Rule} :
    m ∈ innerAll rules ↔ ∃ rule ∈ rules, m ∈ rule.inner := by
  induction rules with
  | nil => simp [innerAll]
  | cons rule rules ih => simp [innerAll, ih]

theorem Action.mem_innerAll {m : Module} {actions : List Action} :
    m ∈ innerAll actions ↔ ∃ action ∈ actions, m ∈ action.inner := by
  induction actions with
  | nil => simp [innerAll]
  | cons action actions ih => simp [innerAll, ih]

theorem Rule.inner_eq (rule : Rule) : rule.inner = Action.innerAll rule.combo := by
  cases rule
  rfl

namespace Module

variable {m body : Module} {rule : Rule}

theorem mem_parts : m ∈ m.parts := List.mem_cons_self

theorem inner_eq (m : Module) : m.inner = Rule.innerAll m.rules := by
  cases m
  rfl

theorem mem_inner {part : Module} :
    part ∈ m.inner ↔ ∃ rule ∈ m.rules, ∃ action ∈ rule.combo, part ∈ action.inner := by
  rw [inner_eq, Rule.mem_innerAll]
  simp only [Rule.inner_eq, Action.mem_innerAll]

theorem parts_of_inPlace {params : List Term} {source : Option Location} (member : rule ∈ m.rules)
    (inside : .call (.inPlace body) params source ∈ rule.combo) : body.parts ⊆ m.parts := by
  intro part own
  exact List.mem_cons_of_mem _ (mem_inner.mpr ⟨rule, member, _, inside, own⟩)

theorem sizeOf_inPlace {params : List Term} {source : Option Location} (member : rule ∈ m.rules)
    (inside : .call (.inPlace body) params source ∈ rule.combo) : sizeOf body < sizeOf m := by
  have first := List.sizeOf_lt_of_mem member
  have second := List.sizeOf_lt_of_mem inside
  obtain ⟨_, _, combo, _⟩ := rule
  obtain ⟨_, _, rules, _, _, _, _, _, _, _, _⟩ := m
  simp only [Rule.mk.sizeOf_spec, Module.mk.sizeOf_spec, Action.call.sizeOf_spec,
    CallTarget.inPlace.sizeOf_spec] at first second ⊢
  omega

theorem mem_calls {name : String} {params : List Term} {source : Option Location}
    (member : rule ∈ m.rules) (inside : .call (.named name) params source ∈ rule.combo) :
    name ∈ m.calls :=
  List.mem_flatMap.mpr ⟨rule, member, List.mem_filterMap.mpr ⟨_, inside, rfl⟩⟩

end Module

namespace Program

variable {p : Program} {m : Module}

theorem mem_registered_of_module? {name : String} (found : p.module? name = some m) :
    m ∈ p.registered :=
  List.mem_append_left _ (List.mem_of_find?_eq_some found)

private theorem mem_registered_of_init (plays : p.init = some m) : m ∈ p.registered := by
  simp [registered, plays]

theorem mem_registered_of_main (plays : p.main = some m) : m ∈ p.registered := by
  simp [registered, plays]

theorem mem_registered_of_event (plays : p.event = some m) : m ∈ p.registered := by
  simp [registered, plays]

private theorem mem_registered_of_shutdown (plays : p.shutdown = some m) : m ∈ p.registered := by
  simp [registered, plays]

theorem opening_registered {phase : Phase} {f : ModuleFrame}
    (opens : p.opening phase = some f) : f.activation.module ∈ p.registered := by
  cases phase with
  | init =>
      obtain ⟨m, plays, rfl⟩ := Option.map_eq_some_iff.mp opens
      exact mem_registered_of_init plays
  | main =>
      obtain ⟨m, plays, rfl⟩ := Option.map_eq_some_iff.mp opens
      exact mem_registered_of_main plays
  | shutdown =>
      obtain ⟨m, plays, rfl⟩ := Option.map_eq_some_iff.mp opens
      exact mem_registered_of_shutdown plays
  | finished => cases opens

end Program

end CognitiveAgent
