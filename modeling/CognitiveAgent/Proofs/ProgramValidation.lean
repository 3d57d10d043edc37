import CognitiveAgent.Program.Construction
import CognitiveAgent.Proofs.InnerModules
import Mathlib.Data.List.Nodup

/-!
Which definitions make a program. The rules of a module and of the modules written out inside it
have positions, and the positions order the rules: a rule comes before the modules inside its
actions, and those before the next rule. A definition makes a program if every rule has an
action, the names of the listed modules differ and every role names one of them. Any other
definition is refused for its first problem.
-/

set_option autoImplicit false

namespace CognitiveAgent

def Action.body? : Action → Option Module
  | .call (.inPlace body) _ _ => some body
  | .call (.named _) _ _ | .user _ | .mental _ => none

structure PlacedRule where
  module : String
  index : Nat
  rule : Rule

namespace Module

/-- The rule at a position: at the index of a rule, or inside it, at the index of one of its
actions and a position in the module that this action has written out. -/
def ruleAt : Module → List Nat → Option PlacedRule
  | _, [] => none
  | m, [index] => m.rules[index]?.map fun rule => ⟨m.name, index, rule⟩
  | m, index :: action :: position =>
    m.rules[index]?.bind fun rule =>
      rule.combo[action]?.bind fun action =>
        action.body?.bind fun body => body.ruleAt position

def ActsAt (m : Module) (position : List Nat) : Prop :=
  ∀ placed, m.ruleAt position = some placed → placed.rule.combo ≠ []

/-- Every rule of the module and of the modules written out inside it has an action. -/
def Acts (m : Module) : Prop :=
  ∀ part ∈ m.parts, ∀ rule ∈ part.rules, rule.combo ≠ []

def FirstIdle (m : Module) (name : String) (index : Nat) : Prop :=
  ∃ position rule, m.ruleAt position = some ⟨name, index, rule⟩ ∧ rule.combo = [] ∧
    ∀ earlier, List.Lex (· < ·) earlier position → m.ActsAt earlier

end Module

section Search

variable {α β : Type}

private theorem first_of_findSome? {f : α → Option β} {items : List α} {b : β}
    (found : items.findSome? f = some b) :
    ∃ (i : Nat) (a : α), items[i]? = some a ∧ f a = some b ∧
      ∀ j, j < i → ∀ a', items[j]? = some a' → f a' = none := by
  obtain ⟨before, a, after, rfl, own, passed⟩ := List.findSome?_eq_some_iff.mp found
  refine ⟨before.length, a, by simp, own, ?_⟩
  intro j earlier a' present
  rw [List.getElem?_append_left earlier] at present
  exact passed a' (List.mem_of_getElem? present)

variable {ε : Type} {e : ε}

private theorem bind_eq_ok_iff {x : Except ε α} {f : α → Except ε β} {b : β} :
    x >>= f = .ok b ↔ ∃ a, x = .ok a ∧ f a = .ok b := by
  cases x <;> simp [bind, Except.bind]

private theorem bind_eq_error_iff {x : Except ε α} {f : α → Except ε β} :
    x >>= f = .error e ↔ x = .error e ∨ ∃ a, x = .ok a ∧ f a = .error e := by
  cases x <;> simp [bind, Except.bind]

private theorem mapM_eq_error_iff {f : α → Except ε β} {items : List α} :
    items.mapM f = .error e ↔ ∃ earlier a later, items = earlier ++ a :: later ∧
      (∀ b ∈ earlier, ∃ c, f b = .ok c) ∧ f a = .error e := by
  induction items with
  | nil => simp [pure, Except.pure]
  | cons a items ih =>
      have step : (a :: items).mapM f = .error e ↔
          f a = .error e ∨ ∃ c, f a = .ok c ∧ items.mapM f = .error e := by
        simp [List.mapM_cons, bind_eq_error_iff, pure, Except.pure]
      rw [step, ih]
      constructor
      · rintro (failed | ⟨c, went, earlier, a', later, rfl, passed, failed⟩)
        · exact ⟨[], a, items, rfl, by simp, failed⟩
        · exact ⟨a :: earlier, a', later, rfl, List.forall_mem_cons.mpr ⟨⟨c, went⟩, passed⟩, failed⟩
      · rintro ⟨earlier, a', later, split, passed, failed⟩
        cases earlier with
        | nil =>
            obtain ⟨rfl, rfl⟩ := List.cons.inj split
            exact .inl failed
        | cons b earlier =>
            obtain ⟨rfl, rest⟩ := List.cons.inj split
            obtain ⟨⟨c, went⟩, passed⟩ := List.forall_mem_cons.mp passed
            exact .inr ⟨c, went, earlier, a', later, rest, passed, failed⟩

end Search

private theorem Action.emptyCombo?_eq (action : Action) :
    action.emptyCombo? = action.body?.bind Module.emptyCombo? := by
  match action with
  | .call (.inPlace _) _ _ | .call (.named _) _ _ | .user _ | .mental _ =>
    simp [emptyCombo?, CallTarget.emptyCombo?, body?]

private theorem Action.emptyComboIn?_eq (actions : List Action) :
    emptyComboIn? actions = actions.findSome? emptyCombo? := by
  induction actions with
  | nil => rfl
  | cons action actions ih =>
      rw [emptyComboIn?, List.findSome?_cons, ih]
      cases action.emptyCombo? <;> rfl

theorem Action.mem_inner {part : Module} {action : Action} :
    part ∈ action.inner ↔ ∃ body, action.body? = some body ∧ part ∈ body.parts := by
  match action with
  | .call (.inPlace _) _ _ | .call (.named _) _ _ | .user _ | .mental _ =>
    simp [inner, CallTarget.inner, body?, Module.parts]

private theorem Action.eq_call_of_body? {action : Action} {body : Module}
    (written : action.body? = some body) :
    ∃ params source, action = .call (.inPlace body) params source := by
  match action, written with
  | .call (.inPlace _) params source, rfl => exact ⟨params, source, rfl⟩

namespace Rule

variable {name : String} {index : Nat} {rule : Rule}

private theorem emptyCombo?_of_nil (idle : rule.combo = []) :
    rule.emptyCombo? name index = some (name, index) := by
  obtain ⟨_, _, combo, _⟩ := rule
  simp [emptyCombo?, show combo = [] from idle]

private theorem emptyCombo?_of_ne_nil (acts : rule.combo ≠ []) :
    rule.emptyCombo? name index = rule.combo.findSome? Action.emptyCombo? := by
  obtain ⟨_, _, combo, _⟩ := rule
  have some : combo ≠ [] := acts
  simp [emptyCombo?, some, Action.emptyComboIn?_eq]

private theorem emptyCombo?_eq_none_iff :
    rule.emptyCombo? name index = none ↔
      rule.combo ≠ [] ∧ ∀ action ∈ rule.combo, action.emptyCombo? = none := by
  by_cases idle : rule.combo = []
  · simp [emptyCombo?_of_nil idle, idle]
  · simp [emptyCombo?_of_ne_nil idle, idle]

private theorem emptyComboFrom?_eq (name : String) (start : Nat) (rules : List Rule) :
    emptyComboFrom? name start rules =
      (rules.zipIdx start).findSome? fun entry => entry.1.emptyCombo? name entry.2 := by
  induction rules generalizing start with
  | nil => rfl
  | cons rule rules ih =>
      rw [emptyComboFrom?, List.zipIdx_cons, List.findSome?_cons, ih]
      cases rule.emptyCombo? name start <;> rfl

end Rule

namespace Module

variable {m body part : Module} {name : String} {index : Nat} {rule : Rule}

private theorem emptyCombo?_eq (m : Module) :
    m.emptyCombo? = m.rules.zipIdx.findSome? fun entry => entry.1.emptyCombo? m.name entry.2 := by
  cases m
  exact Rule.emptyComboFrom?_eq _ _ _

private theorem rule_of_emptyCombo? (none : m.emptyCombo? = none)
    (present : m.rules[index]? = some rule) :
    rule.emptyCombo? m.name index = .none := by
  rw [emptyCombo?_eq, List.findSome?_eq_none_iff] at none
  exact none (rule, index) (List.mem_zipIdx_iff_getElem?.mpr present)

private theorem ruleAt_single_eq_some {placed : PlacedRule} :
    m.ruleAt [index] = some placed ↔
      ∃ rule, m.rules[index]? = some rule ∧ ⟨m.name, index, rule⟩ = placed := by
  rw [ruleAt, Option.map_eq_some_iff]

private theorem ruleAt_cons_eq_some {j : Nat} {position : List Nat} {placed : PlacedRule} :
    m.ruleAt (index :: j :: position) = some placed ↔
      ∃ rule action body, m.rules[index]? = some rule ∧ rule.combo[j]? = some action ∧
        action.body? = some body ∧ body.ruleAt position = some placed := by
  simp [ruleAt, Option.bind_eq_some_iff]

/-- A position leads to a rule of the module or of one written out inside it. -/
theorem part_of_ruleAt : (position : List Nat) → {m : Module} → {placed : PlacedRule} →
    m.ruleAt position = some placed →
      ∃ part ∈ m.parts, part.name = placed.module ∧ part.rules[placed.index]? = some placed.rule
  | [], _, _, present => by cases present
  | [index], m, _, present => by
      obtain ⟨rule, holds, rfl⟩ := ruleAt_single_eq_some.mp present
      exact ⟨m, mem_parts, rfl, holds⟩
  | index :: j :: position, m, _, present => by
      obtain ⟨rule, action, body, holds, has, written, inside⟩ := ruleAt_cons_eq_some.mp present
      obtain ⟨part, own, named, present⟩ := part_of_ruleAt position inside
      refine ⟨part, List.mem_cons_of_mem _ (mem_inner.mpr ?_), named, present⟩
      exact ⟨rule, List.mem_of_getElem? holds, action, List.mem_of_getElem? has,
        Action.mem_inner.mpr ⟨body, written, own⟩⟩

private theorem sizeOf_body? {action : Action} (holds : rule ∈ m.rules) (has : action ∈ rule.combo)
    (written : action.body? = some body) : sizeOf body < sizeOf m := by
  obtain ⟨params, source, rfl⟩ := Action.eq_call_of_body? written
  exact sizeOf_inPlace holds has

/-- Each rule of these modules has a position. -/
theorem exists_ruleAt (m : Module) (own : part ∈ m.parts)
    (present : part.rules[index]? = some rule) :
    ∃ position, m.ruleAt position = some ⟨part.name, index, rule⟩ := by
  obtain rfl | inside := List.mem_cons.mp own
  · exact ⟨[index], ruleAt_single_eq_some.mpr ⟨rule, present, rfl⟩⟩
  · obtain ⟨outer, holds, action, has, own⟩ := mem_inner.mp inside
    obtain ⟨body, written, own⟩ := Action.mem_inner.mp own
    have smaller := sizeOf_body? holds has written
    obtain ⟨position, present⟩ := exists_ruleAt body own present
    obtain ⟨i, holds⟩ := List.getElem?_of_mem holds
    obtain ⟨j, has⟩ := List.getElem?_of_mem has
    exact ⟨i :: j :: position,
      ruleAt_cons_eq_some.mpr ⟨outer, action, body, holds, has, written, present⟩⟩
termination_by sizeOf m

private theorem actsAt_nil : m.ActsAt [] := fun _ present => by cases present

private theorem actsAt_single (acts : ∀ rule, m.rules[index]? = some rule → rule.combo ≠ []) :
    m.ActsAt [index] := by
  intro placed present
  obtain ⟨rule, holds, rfl⟩ := ruleAt_single_eq_some.mp present
  exact acts rule holds

/-- A rule in which the search finds nothing acts, and so do the rules inside it. The recursion
follows the position into the modules that the actions have written out. -/
theorem actsAt_cons : (position : List Nat) → {m : Module} → {index : Nat} →
    (∀ rule, m.rules[index]? = some rule → rule.emptyCombo? m.name index = none) →
      m.ActsAt (index :: position)
  | [], _, _, passed =>
      actsAt_single fun rule present => (Rule.emptyCombo?_eq_none_iff.mp (passed rule present)).1
  | j :: position, _, _, passed => by
      intro placed present
      obtain ⟨rule, action, body, holds, has, written, inside⟩ := ruleAt_cons_eq_some.mp present
      have none : body.emptyCombo? = none := by
        have none := (Rule.emptyCombo?_eq_none_iff.mp (passed rule holds)).2 action
          (List.mem_of_getElem? has)
        rw [Action.emptyCombo?_eq, written] at none
        exact none
      match position with
      | [] => cases inside
      | k :: position =>
          exact actsAt_cons position (fun rule => rule_of_emptyCombo? none) placed inside

private theorem actsAt_of_emptyCombo? (none : m.emptyCombo? = none) (position : List Nat) :
    m.ActsAt position := by
  cases position with
  | nil => exact actsAt_nil
  | cons index position => exact actsAt_cons position fun rule => rule_of_emptyCombo? none

private theorem firstIdle_of_emptyCombo? (m : Module) (found : m.emptyCombo? = some (name, index)) :
    m.FirstIdle name index := by
  have search := found
  rw [emptyCombo?_eq] at search
  obtain ⟨i, ⟨_, _⟩, entry, own, passed⟩ := first_of_findSome? search
  simp only [List.getElem?_zipIdx, Option.map_eq_some_iff, Prod.mk.injEq, Nat.zero_add] at entry
  obtain ⟨rule, holds, rfl, rfl⟩ := entry
  have before : ∀ j, j < i → ∀ position, m.ActsAt (j :: position) := by
    intro j earlier position
    refine actsAt_cons position fun rule present => passed j earlier (rule, j) ?_
    simp [List.getElem?_zipIdx, present]
  by_cases idle : rule.combo = []
  · obtain ⟨rfl, rfl⟩ : m.name = name ∧ i = index := by
      simpa [Rule.emptyCombo?_of_nil idle] using own
    refine ⟨[i], rule, ruleAt_single_eq_some.mpr ⟨rule, holds, rfl⟩, idle, ?_⟩
    intro earlier less
    cases less with
    | nil => exact actsAt_nil
    | rel less => exact before _ less _
    | cons less => cases less
  · rw [Rule.emptyCombo?_of_ne_nil idle] at own
    obtain ⟨j, action, has, own, skipped⟩ := first_of_findSome? own
    rw [Action.emptyCombo?_eq] at own
    obtain ⟨body, written, found⟩ := Option.bind_eq_some_iff.mp own
    have smaller := sizeOf_body? (List.mem_of_getElem? holds) (List.mem_of_getElem? has) written
    obtain ⟨position, bare, inside, lacks, prior⟩ := firstIdle_of_emptyCombo? body found
    refine ⟨i :: j :: position, bare,
      ruleAt_cons_eq_some.mpr ⟨rule, action, body, holds, has, written, inside⟩, lacks, ?_⟩
    intro earlier less
    -- an earlier position is in an earlier rule, at this rule, in an earlier action or in `body`
    cases less with
    | nil => exact actsAt_nil
    | rel less => exact before _ less _
    | cons less =>
        cases less with
        | nil =>
            refine actsAt_single fun rule' present => ?_
            obtain rfl := Option.some.inj (holds.symm.trans present)
            exact idle
        | rel less =>
            intro placed present
            obtain ⟨rule', action', body', holds', has', written', inside'⟩ :=
              ruleAt_cons_eq_some.mp present
            obtain rfl := Option.some.inj (holds.symm.trans holds')
            have none := skipped _ less action' has'
            rw [Action.emptyCombo?_eq, written'] at none
            exact actsAt_of_emptyCombo? none _ placed inside'
        | cons less =>
            intro placed present
            obtain ⟨rule', action', body', holds', has', written', inside'⟩ :=
              ruleAt_cons_eq_some.mp present
            obtain rfl := Option.some.inj (holds.symm.trans holds')
            obtain rfl := Option.some.inj (has.symm.trans has')
            obtain rfl := Option.some.inj (written.symm.trans written')
            exact prior _ less placed inside'
termination_by sizeOf m

theorem FirstIdle.unique {name' : String} {index' : Nat} (first : m.FirstIdle name index)
    (second : m.FirstIdle name' index') : name = name' ∧ index = index' := by
  obtain ⟨position, rule, present, idle, before⟩ := first
  obtain ⟨position', rule', present', idle', before'⟩ := second
  have same : position = position' :=
    List.le_antisymm (fun less => before _ less _ present' idle')
      fun less => before' _ less _ present idle
  subst same
  rw [present] at present'
  cases present'
  exact ⟨rfl, rfl⟩

private theorem emptyCombo?_eq_none_iff : m.emptyCombo? = none ↔ m.Acts := by
  constructor
  · intro none part own rule present
    obtain ⟨index, present⟩ := List.getElem?_of_mem present
    obtain ⟨position, present⟩ := exists_ruleAt m own present
    exact actsAt_of_emptyCombo? none position _ present
  · intro acts
    cases found : m.emptyCombo? with
    | none => rfl
    | some place =>
        obtain ⟨position, rule, present, idle, _⟩ := firstIdle_of_emptyCombo? m found
        obtain ⟨part, own, _, present⟩ := part_of_ruleAt position present
        exact (acts part own rule (List.mem_of_getElem? present) idle).elim

private theorem emptyCombo?_eq_some_iff :
    m.emptyCombo? = some (name, index) ↔ m.FirstIdle name index := by
  constructor
  · exact firstIdle_of_emptyCombo? m
  · intro first
    cases found : m.emptyCombo? with
    | none =>
        obtain ⟨position, rule, present, idle, _⟩ := first
        exact (actsAt_of_emptyCombo? found position _ present idle).elim
    | some place =>
        obtain ⟨rfl, rfl⟩ := (firstIdle_of_emptyCombo? m found).unique first
        rfl

end Module

structure Module.Sound (modules : List Module) : Prop where
  distinct : (modules.map (·.name)).Nodup
  acting : ∀ m ∈ modules, m.Acts

namespace Module.Sound

variable {modules rest : List Module}

theorem nil : Sound [] := ⟨List.nodup_nil, by simp⟩

theorem of_append (sound : Sound (modules ++ rest)) : Sound modules := by
  refine ⟨?_, fun m member => sound.acting m (List.mem_append_left _ member)⟩
  have distinct := sound.distinct
  rw [List.map_append, List.nodup_append] at distinct
  exact distinct.1

end Module.Sound

def Role.inOrder : List Role := [.init, .main, .event, .shutdown]

namespace Definition

def Defines (d : Definition) (role : Role) : Prop :=
  ∀ name, d.named role = some name → ∃ m ∈ d.modules, m.name = name

/-- What makes a definition one of a program. -/
structure Valid (d : Definition) : Prop where
  sound : Module.Sound d.modules
  roles : ∀ role, d.Defines role

/-- The problem for which a definition is refused. The modules are gone through in order, and a
rule without actions counts before a name that an earlier module has. The roles come last. -/
inductive FirstProblem (d : Definition) : ProgramError → Prop
  | idle {before after : List Module} {m : Module} {name : String} {index : Nat}
      (listed : d.modules = before ++ m :: after) (sound : Module.Sound before)
      (first : m.FirstIdle name index) : FirstProblem d (.emptyCombo name index)
  | repeated {before after : List Module} {m : Module}
      (listed : d.modules = before ++ m :: after) (sound : Module.Sound before) (acts : m.Acts)
      (taken : m.name ∈ before.map (·.name)) : FirstProblem d (.duplicateModule m.name)
  | undefined {earlier later : List Role} {role : Role} {name : String}
      (sound : Module.Sound d.modules) (order : Role.inOrder = earlier ++ role :: later)
      (defined : ∀ other ∈ earlier, d.Defines other) (names : d.named role = some name)
      (missing : ∀ m ∈ d.modules, m.name ≠ name) : FirstProblem d (.unknownRoleModule role name)

end Definition

namespace Program

variable {d : Definition} {p : Program} {modules accepted rest all : List Module} {m : Module}
  {e : ProgramError} {role : Role} {name : String}

def playing (p : Program) : Role → Option Module
  | .init => p.init
  | .main => p.main
  | .event => p.event
  | .shutdown => p.shutdown

/-- A program holds the listed modules under their names and gives each role to the module that
the definition names for it. -/
structure Holds (p : Program) (d : Definition) : Prop where
  lookup : ∀ name m, p.module? name = some m ↔ m ∈ d.modules ∧ m.name = name
  size : p.modules.length = d.modules.length
  roles : ∀ role m, p.playing role = some m ↔ m ∈ d.modules ∧ d.named role = some m.name

/-! ### Modules in order -/

def refusal? (accepted : List Module) (m : Module) : Option ProgramError :=
  match m.emptyCombo? with
  | some (module, rule) => some (.emptyCombo module rule)
  | none => if m.name ∈ accepted.map (·.name) then some (.duplicateModule m.name) else none

private theorem accept_cons_of_refusal (refused : refusal? accepted m = some e) :
    accept accepted (m :: rest) = .error e := by
  unfold refusal? at refused
  unfold accept
  cases found : m.emptyCombo? with
  | some place => simpa [found] using refused
  | none =>
      have taken : m.name ∈ accepted.map (·.name) ∧ .duplicateModule m.name = e := by
        simpa [found] using refused
      have any : accepted.any (·.name == m.name) := by simpa using taken.1
      simp [any, taken.2]

private theorem accept_cons (passed : refusal? accepted m = none) :
    accept accepted (m :: rest) = accept (accepted ++ [m]) rest := by
  unfold refusal? at passed
  rw [accept]
  cases found : m.emptyCombo? with
  | some place => simp [found] at passed
  | none =>
      have fresh : m.name ∉ accepted.map (·.name) := by simpa [found] using passed
      have any : accepted.any (·.name == m.name) = false := by simpa using fresh
      simp [any]

private theorem refusal?_eq_none_iff :
    refusal? accepted m = none ↔ m.Acts ∧ m.name ∉ accepted.map (·.name) := by
  rw [← Module.emptyCombo?_eq_none_iff]
  cases found : m.emptyCombo? <;> simp [refusal?, found]

private theorem refusal?_eq_some_iff :
    refusal? accepted m = some e ↔
      (∃ name index, m.FirstIdle name index ∧ .emptyCombo name index = e) ∨
        m.Acts ∧ m.name ∈ accepted.map (·.name) ∧ .duplicateModule m.name = e := by
  simp only [← Module.emptyCombo?_eq_none_iff, ← Module.emptyCombo?_eq_some_iff]
  cases found : m.emptyCombo? with
  | none => simp [refusal?, found]
  | some place =>
      obtain ⟨name, index⟩ := place
      simp [refusal?, found]

private theorem sound_append_iff :
    Module.Sound (accepted ++ [m]) ↔ Module.Sound accepted ∧ refusal? accepted m = none := by
  rw [refusal?_eq_none_iff]
  constructor
  · intro sound
    have distinct := sound.distinct
    rw [List.map_append, List.nodup_append] at distinct
    refine ⟨sound.of_append, sound.acting m (by simp), ?_⟩
    intro taken
    exact distinct.2.2 _ taken _ (by simp) rfl
  · rintro ⟨⟨distinct, acting⟩, acts, fresh⟩
    constructor
    · rw [List.map_append, List.nodup_append]
      refine ⟨distinct, by simp, ?_⟩
      rintro _ taken _ own rfl
      obtain rfl := List.mem_singleton.mp own
      exact fresh taken
    · intro m' member
      obtain member | member := List.mem_append.mp member
      · exact acting m' member
      · obtain rfl := List.mem_singleton.mp member
        exact acts

/-- What is left to do after some accepted modules ends well if they are sound all together. It
ends with the refusal of the first module that is not sound after those before it. -/
theorem accept_spec (sound : Module.Sound accepted) (rest : List Module) :
    (Module.Sound (accepted ++ rest) ∧ accept accepted rest = .ok (accepted ++ rest)) ∨
      ∃ before m after e, rest = before ++ m :: after ∧ Module.Sound (accepted ++ before) ∧
        refusal? (accepted ++ before) m = some e ∧ accept accepted rest = .error e := by
  induction rest generalizing accepted with
  | nil => exact .inl (by simpa [accept] using sound)
  | cons m rest ih =>
      cases refused : refusal? accepted m with
      | some e =>
          refine .inr ⟨[], m, rest, e, rfl, by simpa using sound, by simpa using refused, ?_⟩
          exact accept_cons_of_refusal refused
      | none =>
          rw [accept_cons refused]
          have longer := sound_append_iff.mpr ⟨sound, refused⟩
          obtain ⟨whole, went⟩ | ⟨before, m', after, e, rfl, whole, refused, went⟩ := ih longer
          · exact .inl ⟨by simpa using whole, by simpa using went⟩
          · exact .inr ⟨m :: before, m', after, e, rfl, by simpa using whole,
              by simpa using refused, went⟩

private theorem accept_append {before : List Module} (sound : Module.Sound (accepted ++ before)) :
    accept accepted (before ++ rest) = accept (accepted ++ before) rest := by
  induction before generalizing accepted with
  | nil => rw [List.nil_append, List.append_nil]
  | cons m before ih =>
      rw [List.append_cons] at sound
      have passed := (sound_append_iff.mp sound.of_append).2
      rw [List.cons_append, accept_cons passed, ih sound, List.append_assoc,
        List.singleton_append]

private theorem accept_eq_ok_iff :
    accept [] modules = .ok all ↔ Module.Sound modules ∧ all = modules := by
  constructor
  · intro went
    obtain ⟨sound, ends⟩ | ⟨_, _, _, _, _, _, _, ends⟩ := accept_spec Module.Sound.nil modules
    · cases went.symm.trans ends
      exact ⟨sound, rfl⟩
    · cases went.symm.trans ends
  · rintro ⟨sound, rfl⟩
    have whole := @accept_append [] [] _ sound
    simpa [accept] using whole

private theorem accept_eq_error_iff :
    accept [] modules = .error e ↔ ∃ before m after, modules = before ++ m :: after ∧
      Module.Sound before ∧ refusal? before m = some e := by
  constructor
  · intro went
    obtain ⟨_, ends⟩ | ⟨before, m, after, e', split, sound, refused, ends⟩ :=
      accept_spec Module.Sound.nil modules
    · cases went.symm.trans ends
    · cases went.symm.trans ends
      exact ⟨before, m, after, split, sound, refused⟩
  · rintro ⟨before, m, after, rfl, sound, refused⟩
    have reached : accept [] (before ++ m :: after) = accept before (m :: after) :=
      accept_append sound
    rw [reached, accept_cons_of_refusal refused]

/-! ### Roles -/

private theorem find?_eq_none_iff : find? modules name = none ↔ ∀ m ∈ modules, m.name ≠ name := by
  simp [find?]

private theorem find?_eq_some_iff (sound : Module.Sound modules) :
    find? modules name = some m ↔ m ∈ modules ∧ m.name = name := by
  constructor
  · intro found
    exact ⟨List.mem_of_find?_eq_some found, by simpa using List.find?_some found⟩
  · rintro ⟨member, rfl⟩
    cases found : find? modules m.name with
    | none => exact (find?_eq_none_iff.mp found m member rfl).elim
    | some other =>
        have named : other.name = m.name := by simpa using List.find?_some found
        rw [List.inj_on_of_nodup_map sound.distinct (List.mem_of_find?_eq_some found) member named]

private theorem appoint_eq_ok_iff {player : Option Module} :
    appoint d d.modules role = .ok player ↔
      d.Defines role ∧ (d.named role).bind (find? d.modules) = player := by
  unfold appoint Definition.Defines
  cases named : d.named role with
  | none => simp
  | some name =>
      cases found : find? d.modules name with
      | none =>
          have missing := find?_eq_none_iff.mp found
          constructor
          · intro impossible
            simp [found] at impossible
          · rintro ⟨defined, _⟩
            obtain ⟨m, member, own⟩ := defined name rfl
            exact (missing m member own).elim
      | some m =>
          have own : m.name = name := by simpa using List.find?_some found
          have defined : ∃ m ∈ d.modules, m.name = name :=
            ⟨m, List.mem_of_find?_eq_some found, own⟩
          simp [found, defined]

private theorem appoint_eq_error_iff :
    appoint d d.modules role = .error e ↔ ∃ name, d.named role = some name ∧
      (∀ m ∈ d.modules, m.name ≠ name) ∧ .unknownRoleModule role name = e := by
  simp only [← find?_eq_none_iff]
  unfold appoint
  cases named : d.named role with
  | none => simp
  | some name => cases found : find? d.modules name <;> simp [found]

/-! ### Definitions -/

private theorem ofDefinition_eq_ok_iff :
    ofDefinition d = .ok p ↔ accept [] d.modules = .ok p.modules ∧
      ∀ role, appoint d p.modules role = .ok (p.playing role) := by
  simp only [ofDefinition, bind_eq_ok_iff]
  constructor
  · rintro ⟨modules, accepted, init, hasInit, main, hasMain, event, hasEvent, shutdown,
      hasShutdown, same⟩
    cases same
    refine ⟨accepted, fun role => ?_⟩
    cases role <;> assumption
  · rintro ⟨accepted, roles⟩
    exact ⟨p.modules, accepted, p.init, roles .init, p.main, roles .main, p.event, roles .event,
      p.shutdown, roles .shutdown, rfl⟩

private theorem ofDefinition_eq_error_iff :
    ofDefinition d = .error e ↔
      (accept [] d.modules >>= fun modules => Role.inOrder.mapM (appoint d modules)) =
        .error e := by
  simp [ofDefinition, Role.inOrder, bind_eq_error_iff, pure, Except.pure]

private theorem valid_of_ofDefinition (made : ofDefinition d = .ok p) : d.Valid := by
  obtain ⟨accepted, roles⟩ := ofDefinition_eq_ok_iff.mp made
  obtain ⟨sound, same⟩ := accept_eq_ok_iff.mp accepted
  rw [same] at roles
  exact ⟨sound, fun role => (appoint_eq_ok_iff.mp (roles role)).1⟩

private theorem holds_of_ofDefinition (made : ofDefinition d = .ok p) : p.Holds d := by
  obtain ⟨accepted, roles⟩ := ofDefinition_eq_ok_iff.mp made
  obtain ⟨sound, same⟩ := accept_eq_ok_iff.mp accepted
  rw [same] at roles
  constructor
  · intro name m
    rw [module?, same]
    exact find?_eq_some_iff sound
  · rw [same]
  · intro role m
    rw [← (appoint_eq_ok_iff.mp (roles role)).2, Option.bind_eq_some_iff]
    simp only [find?_eq_some_iff sound]
    constructor
    · rintro ⟨name, named, member, rfl⟩
      exact ⟨member, named⟩
    · rintro ⟨member, named⟩
      exact ⟨m.name, named, member, rfl⟩

private theorem ofDefinition_of_valid (valid : d.Valid) : ∃ p, ofDefinition d = .ok p := by
  have appointed : ∀ role, ∃ player, appoint d d.modules role = .ok player :=
    fun role => ⟨_, appoint_eq_ok_iff.mpr ⟨valid.roles role, rfl⟩⟩
  obtain ⟨init, hasInit⟩ := appointed .init
  obtain ⟨main, hasMain⟩ := appointed .main
  obtain ⟨event, hasEvent⟩ := appointed .event
  obtain ⟨shutdown, hasShutdown⟩ := appointed .shutdown
  refine ⟨⟨d.modules, init, main, event, shutdown⟩, ofDefinition_eq_ok_iff.mpr ⟨?_, ?_⟩⟩
  · exact accept_eq_ok_iff.mpr ⟨valid.sound, rfl⟩
  · intro role
    cases role <;> assumption

private theorem appoint_first_error_iff :
    Role.inOrder.mapM (appoint d d.modules) = .error e ↔
      ∃ earlier role later name, Role.inOrder = earlier ++ role :: later ∧
        (∀ other ∈ earlier, d.Defines other) ∧ d.named role = some name ∧
        (∀ m ∈ d.modules, m.name ≠ name) ∧ .unknownRoleModule role name = e := by
  simp only [mapM_eq_error_iff, appoint_eq_error_iff, appoint_eq_ok_iff]
  constructor
  · rintro ⟨earlier, role, later, order, passed, name, named, missing, same⟩
    exact ⟨earlier, role, later, name, order,
      fun other member => (passed other member).elim fun _ passed => passed.1, named, missing, same⟩
  · rintro ⟨earlier, role, later, name, order, passed, named, missing, same⟩
    exact ⟨earlier, role, later, order, fun other member => ⟨_, passed other member, rfl⟩, name,
      named, missing, same⟩

private theorem ofDefinition_eq_error_iff_firstProblem :
    ofDefinition d = .error e ↔ d.FirstProblem e := by
  rw [ofDefinition_eq_error_iff, bind_eq_error_iff]
  simp only [accept_eq_error_iff, accept_eq_ok_iff, refusal?_eq_some_iff]
  constructor
  · rintro (⟨before, m, after, listed, sound, ⟨name, index, first, rfl⟩ | ⟨acts, taken, rfl⟩⟩ |
      ⟨_, ⟨sound, rfl⟩, failed⟩)
    · exact .idle listed sound first
    · exact .repeated listed sound acts taken
    · obtain ⟨_, _, _, _, order, defined, names, missing, rfl⟩ := appoint_first_error_iff.mp failed
      exact .undefined sound order defined names missing
  · intro problem
    cases problem with
    | idle listed sound first =>
        exact .inl ⟨_, _, _, listed, sound, .inl ⟨_, _, first, rfl⟩⟩
    | repeated listed sound acts taken =>
        exact .inl ⟨_, _, _, listed, sound, .inr ⟨acts, taken, rfl⟩⟩
    | undefined sound order defined names missing =>
        exact .inr ⟨_, ⟨sound, rfl⟩,
          appoint_first_error_iff.mpr ⟨_, _, _, _, order, defined, names, missing, rfl⟩⟩

end Program

/-- A definition makes a program if and only if it is valid. The program then holds the listed
modules and gives them their roles. Any other definition is refused for its first problem. -/
theorem program_validation (d : Definition) :
    ((∃ p, Program.ofDefinition d = .ok p) ↔ d.Valid) ∧
      (∀ p, Program.ofDefinition d = .ok p → p.Holds d) ∧
      ∀ e, Program.ofDefinition d = .error e ↔ d.FirstProblem e := by
  refine ⟨⟨?_, Program.ofDefinition_of_valid⟩, fun _ => Program.holds_of_ofDefinition,
    fun _ => Program.ofDefinition_eq_error_iff_firstProblem⟩
  rintro ⟨p, made⟩
  exact Program.valid_of_ofDefinition made

def sorting (inner outer : List Action) : Module :=
  { Module.ofName "sorting" with
    rules := [
      .ofKind .ifThen .always [.nested (.unnamed "tray" [
        .ofKind .ifThen .always [.exitModule], .ofKind .ifThen .always inner])],
      .ofKind .ifThen .always outer] }

/-- The module is listed twice, the second time with two rules that do nothing, and the initial
module is not listed. -/
def untidy : Definition :=
  { modules := [sorting [.exitModule] [.exitModule], sorting [] []], init := some "setup" }

def tidy : Definition :=
  { modules := [sorting [.exitModule] [.exitModule], .ofName "setup"], init := some "setup",
    main := some "sorting" }

theorem program_validation_of_sorting :
    untidy.FirstProblem (.emptyCombo "tray" 1) ∧ ¬ untidy.Valid ∧ tidy.Valid ∧
      ∃ p, Program.ofDefinition tidy = .ok p ∧ p.Holds tidy := by
  obtain ⟨valid, _, problem⟩ := program_validation untidy
  obtain ⟨tidied, holds, _⟩ := program_validation tidy
  have refused : Program.ofDefinition untidy = .error (.emptyCombo "tray" 1) := by rfl
  have made : ∃ p, Program.ofDefinition tidy = .ok p := ⟨_, rfl⟩
  refine ⟨(problem _).mp refused, ?_, tidied.mp made, ?_⟩
  · intro sound
    obtain ⟨p, made⟩ := valid.mpr sound
    cases refused.symm.trans made
  · obtain ⟨p, made⟩ := made
    exact ⟨p, made, holds p made⟩

end CognitiveAgent
