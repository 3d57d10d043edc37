import CognitiveAgent.Proofs.Acyclicity

/-!
Terms that are alike: they have the same shape, and at each place the same name or text, or numbers
that are the same or equal. Unlike equality of terms this is an equivalence, since a NaN is like
itself. Without NaN the two come to the same. Alike terms have as many nodes, so that a variable is
never like a term in which it stands somewhere inside.
-/

set_option autoImplicit false

namespace CognitiveAgent

namespace Number

theorem equal_iff {x y : Number} : x.equal y = true ↔
    x.isNaN = false ∧ y.isNaN = false ∧ (x = y ∨ x.isZero = true ∧ y.isZero = true) := by
  obtain ⟨word⟩ := x
  obtain ⟨other⟩ := y
  simp [equal, and_assoc]

theorem equal_symm {x y : Number} (same : x.equal y = true) : y.equal x = true := by
  obtain ⟨left, right, either⟩ := equal_iff.mp same
  rw [equal_iff]
  rcases either with rfl | zeros
  · exact ⟨left, left, .inl rfl⟩
  · exact ⟨right, left, .inr zeros.symm⟩

private theorem equal_trans {x y z : Number} (first : x.equal y = true)
    (second : y.equal z = true) :
    x.equal z = true := by
  obtain ⟨left, _, before⟩ := equal_iff.mp first
  obtain ⟨_, right, after⟩ := equal_iff.mp second
  rw [equal_iff]
  rcases before with rfl | zeros
  · exact ⟨left, right, after⟩
  · rcases after with rfl | others
    · exact ⟨left, right, .inr zeros⟩
    · exact ⟨left, right, .inr ⟨zeros.1, others.2⟩⟩

end Number

namespace Term

/-! ### Numbers and nodes -/

mutual

def numbers : Term → List Number
  | .var _ | .atom _ | .string _ => []
  | .number value => [value]
  | .compound _ args => numbersAll args
  | .list items => numbersAll items

def numbersAll : List Term → List Number
  | [] => []
  | t :: ts => numbers t ++ numbersAll ts

end

def NaNFree (t : Term) : Prop := ∀ value ∈ t.numbers, value.isNaN = false

instance (t : Term) : Decidable t.NaNFree :=
  inferInstanceAs (Decidable (∀ value ∈ t.numbers, value.isNaN = false))

mutual

def nodes : Term → Nat
  | .var _ | .atom _ | .number _ | .string _ => 1
  | .compound _ args => nodesAll args + 1
  | .list items => nodesAll items + 1

def nodesAll : List Term → Nat
  | [] => 0
  | t :: ts => nodes t + nodesAll ts

end

variable {image other : String → Term} {x : String}

private theorem mem_numbersAll {value : Number} {ts : List Term} :
    value ∈ numbersAll ts ↔ ∃ t ∈ ts, value ∈ t.numbers := by
  induction ts with
  | nil => simp [numbersAll]
  | cons t ts ih => simp [numbersAll, ih]

theorem NaNFree.of_mem_all {t : Term} {ts : List Term}
    (free : ∀ value ∈ numbersAll ts, value.isNaN = false) (inside : t ∈ ts) : t.NaNFree :=
  fun value member => free value (mem_numbersAll.mpr ⟨t, inside, member⟩)

theorem NaNFree.subst {t : Term} (free : t.NaNFree)
    (images : ∀ x ∈ t.occurrences, (image x).NaNFree) : (t.subst image).NaNFree := by
  have all {ts : List Term} (each : ∀ t ∈ ts, (t.subst image).NaNFree) :
      ∀ value ∈ numbersAll (substAll image ts), value.isNaN = false := by
    intro value member
    rw [substAll_eq_map] at member
    obtain ⟨u, inside, here⟩ := mem_numbersAll.mp member
    obtain ⟨t, earlier, rfl⟩ := List.mem_map.mp inside
    exact each t earlier value here
  induction t using nested with
  | var name => exact images name List.mem_cons_self
  | atom | number | string => exact free
  | compound functor args ih =>
      apply all
      intro t inside
      apply ih t inside (NaNFree.of_mem_all free inside)
      exact fun x occurs => images x (mem_occurrencesAll.mpr ⟨t, inside, occurs⟩)
  | list items ih =>
      apply all
      intro t inside
      apply ih t inside (NaNFree.of_mem_all free inside)
      exact fun x occurs => images x (mem_occurrencesAll.mpr ⟨t, inside, occurs⟩)

theorem nodes_pos (t : Term) : 0 < t.nodes := by
  cases t <;> simp [nodes]

private theorem nodes_le_nodesAll {t : Term} {ts : List Term} (inside : t ∈ ts) :
    t.nodes ≤ nodesAll ts := by
  induction ts with
  | nil => cases inside
  | cons u ts ih =>
      rw [nodesAll]
      rcases List.mem_cons.mp inside with rfl | later
      · omega
      · have rest := ih later
        omega

private theorem nodes_le_substAll {ts : List Term} (occurs : x ∈ occurrencesAll ts)
    (each : ∀ t ∈ ts, x ∈ t.occurrences → (image x).nodes ≤ (t.subst image).nodes) :
    (image x).nodes ≤ nodesAll (substAll image ts) := by
  obtain ⟨t, inside, here⟩ := mem_occurrencesAll.mp occurs
  rw [substAll_eq_map]
  exact Nat.le_trans (each t inside here) (nodes_le_nodesAll (List.mem_map_of_mem inside))

private theorem nodes_le_subst {t : Term} (occurs : x ∈ t.occurrences) :
    (image x).nodes ≤ (t.subst image).nodes := by
  induction t using nested with
  | var name =>
      rw [List.mem_singleton.mp occurs]
      exact Nat.le_refl _
  | atom | number | string => cases occurs
  | compound functor args ih => exact Nat.le_succ_of_le (nodes_le_substAll occurs ih)
  | list items ih => exact Nat.le_succ_of_le (nodes_le_substAll occurs ih)

private theorem nodes_lt_subst {t : Term} (occurs : x ∈ t.occurrences) (inner : t ≠ .var x) :
    (image x).nodes < (t.subst image).nodes := by
  cases t with
  | var name =>
      rw [List.mem_singleton.mp occurs] at inner
      exact absurd rfl inner
  | atom | number | string => cases occurs
  | compound functor args =>
      exact Nat.lt_succ_of_le (nodes_le_substAll occurs fun _ _ => nodes_le_subst)
  | list items =>
      exact Nat.lt_succ_of_le (nodes_le_substAll occurs fun _ _ => nodes_le_subst)

/-! ### Likeness -/

mutual

inductive Alike : Term → Term → Prop where
  | var (name : String) : Alike (.var name) (.var name)
  | atom (name : String) : Alike (.atom name) (.atom name)
  | number {value other : Number} (same : value = other ∨ value.equal other = true) :
      Alike (.number value) (.number other)
  | string (value : String) : Alike (.string value) (.string value)
  | compound (functor : String) {lefts rights : List Term} (all : AlikeAll lefts rights) :
      Alike (.compound functor lefts) (.compound functor rights)
  | list {lefts rights : List Term} (all : AlikeAll lefts rights) :
      Alike (.list lefts) (.list rights)

inductive AlikeAll : List Term → List Term → Prop where
  | nil : AlikeAll [] []
  | cons {left right : Term} {lefts rights : List Term} (first : Alike left right)
      (rest : AlikeAll lefts rights) : AlikeAll (left :: lefts) (right :: rights)

end

private theorem alikeAll_map {f g : Term → Term} {ts : List Term}
    (each : ∀ t ∈ ts, (f t).Alike (g t)) :
    AlikeAll (ts.map f) (ts.map g) := by
  induction ts with
  | nil => exact .nil
  | cons t ts ih =>
      apply AlikeAll.cons
      · exact each t List.mem_cons_self
      · exact ih fun u inside => each u (List.mem_cons_of_mem t inside)

theorem alike_subst {t : Term} (each : ∀ x ∈ t.occurrences, (image x).Alike (other x)) :
    (t.subst image).Alike (t.subst other) := by
  induction t using nested with
  | var name => exact each name List.mem_cons_self
  | atom name => exact .atom name
  | number value => exact .number (.inl rfl)
  | string value => exact .string value
  | compound functor args ih =>
      simp only [subst, substAll_eq_map]
      apply Alike.compound
      apply alikeAll_map
      intro t inside
      exact ih t inside fun x occurs => each x (mem_occurrencesAll.mpr ⟨t, inside, occurs⟩)
  | list items ih =>
      simp only [subst, substAll_eq_map]
      apply Alike.list
      apply alikeAll_map
      intro t inside
      exact ih t inside fun x occurs => each x (mem_occurrencesAll.mpr ⟨t, inside, occurs⟩)

theorem Alike.refl (t : Term) : t.Alike t := by
  have same : (t.subst .var).Alike (t.subst .var) := alike_subst fun x _ => .var x
  rw [subst_var] at same
  exact same

mutual

theorem Alike.symm {left right : Term} : left.Alike right → right.Alike left
  | .var name => .var name
  | .atom name => .atom name
  | .number same => .number (same.imp Eq.symm Number.equal_symm)
  | .string value => .string value
  | .compound functor all => .compound functor all.symm
  | .list all => .list all.symm

theorem AlikeAll.symm {lefts rights : List Term} : AlikeAll lefts rights → AlikeAll rights lefts
  | .nil => .nil
  | .cons first rest => .cons first.symm rest.symm

end

mutual

theorem Alike.trans {left middle right : Term} :
    left.Alike middle → middle.Alike right → left.Alike right
  | .var _, second => second
  | .atom _, second => second
  | .number first, .number second => .number (by
      rcases first with rfl | first
      · exact second
      · rcases second with rfl | second
        · exact .inr first
        · exact .inr (Number.equal_trans first second))
  | .string _, second => second
  | .compound functor first, .compound _ second => .compound functor (first.trans second)
  | .list first, .list second => .list (first.trans second)

theorem AlikeAll.trans {lefts middles rights : List Term} :
    AlikeAll lefts middles → AlikeAll middles rights → AlikeAll lefts rights
  | .nil, .nil => .nil
  | .cons first rest, .cons second others => .cons (first.trans second) (rest.trans others)

end

mutual

theorem Alike.subst {left right : Term} (image : String → Term) :
    left.Alike right → (left.subst image).Alike (right.subst image)
  | .var name => .refl (image name)
  | .atom name => .atom name
  | .number same => .number same
  | .string value => .string value
  | .compound functor all => .compound functor (all.substAll image)
  | .list all => .list (all.substAll image)

theorem AlikeAll.substAll {lefts rights : List Term} (image : String → Term) :
    AlikeAll lefts rights → AlikeAll (Term.substAll image lefts) (Term.substAll image rights)
  | .nil => .nil
  | .cons first rest => .cons (first.subst image) (rest.substAll image)

end

mutual

private theorem Alike.nodes_eq {left right : Term} : left.Alike right → left.nodes = right.nodes
  | .var _ | .atom _ | .number _ | .string _ => rfl
  | .compound _ all => congrArg (· + 1) all.nodesAll_eq
  | .list all => congrArg (· + 1) all.nodesAll_eq

private theorem AlikeAll.nodesAll_eq {lefts rights : List Term} :
    AlikeAll lefts rights → nodesAll lefts = nodesAll rights
  | .nil => rfl
  | .cons first rest => by rw [nodesAll, nodesAll, first.nodes_eq, rest.nodesAll_eq]

end

theorem AlikeAll.length_eq {lefts rights : List Term} (all : AlikeAll lefts rights) :
    lefts.length = rights.length := by
  induction lefts generalizing rights with
  | nil => cases all; rfl
  | cons left lefts ih =>
      cases all with
      | cons first rest => rw [List.length_cons, List.length_cons, ih rest]

theorem alikeAll_substAll_iff {lefts rights : List Term} (same : lefts.length = rights.length) :
    AlikeAll (substAll image lefts) (substAll image rights) ↔
      ∀ pair ∈ lefts.zip rights, (pair.1.subst image).Alike (pair.2.subst image) := by
  induction lefts generalizing rights with
  | nil =>
      cases rights with
      | nil => simp [substAll, AlikeAll.nil]
      | cons right rights => cases same
  | cons left lefts ih =>
      cases rights with
      | nil => cases same
      | cons right rights =>
          rw [List.zip_cons_cons, List.forall_mem_cons, ← ih (Nat.succ.inj same)]
          constructor
          · intro all
            cases all with
            | cons first rest => exact ⟨first, rest⟩
          · rintro ⟨first, rest⟩
            exact .cons first rest

mutual

theorem alike_of_equal :
    ∀ left right : Term, left.equal right = true → left.Alike right
  | .var a, .var b, same => eq_of_beq same ▸ .var a
  | .atom a, .atom b, same => eq_of_beq same ▸ .atom a
  | .number _, .number _, same => .number (.inr same)
  | .string a, .string b, same => eq_of_beq same ▸ .string a
  | .compound f lefts, .compound g rights, same => by
      obtain ⟨functor, all⟩ := Bool.and_eq_true_iff.mp same
      rw [eq_of_beq functor]
      exact .compound g (alikeAll_of_equal lefts rights all)
  | .list lefts, .list rights, same => .list (alikeAll_of_equal lefts rights same)

private theorem alikeAll_of_equal :
    ∀ lefts rights : List Term, equalAll lefts rights = true → AlikeAll lefts rights
  | [], [], _ => .nil
  | left :: lefts, right :: rights, same => by
      obtain ⟨first, rest⟩ := Bool.and_eq_true_iff.mp same
      exact .cons (alike_of_equal left right first) (alikeAll_of_equal lefts rights rest)

end

mutual

theorem Alike.equal {left right : Term} :
    left.Alike right → left.NaNFree → left.equal right = true
  | .var name, _ | .atom name, _ | .string name, _ => beq_self_eq_true name
  | .number same, free => by
      rcases same with rfl | same
      · have value := free _ List.mem_cons_self
        exact Number.equal_iff.mpr ⟨value, value, .inl rfl⟩
      · exact same
  | .compound functor all, free => by
      rw [Term.equal, beq_self_eq_true, Bool.true_and]
      exact all.equalAll free
  | .list all, free => all.equalAll free

theorem AlikeAll.equalAll {lefts rights : List Term} :
    AlikeAll lefts rights → (∀ value ∈ numbersAll lefts, value.isNaN = false) →
      Term.equalAll lefts rights = true
  | .nil, _ => rfl
  | .cons first rest, free => by
      rw [Term.equalAll, Bool.and_eq_true]
      constructor
      · exact first.equal fun value member => free value (List.mem_append_left _ member)
      · exact rest.equalAll fun value member => free value (List.mem_append_right _ member)

end

/-- What a variable stands for is never like a term in which the variable stands inside. -/
theorem not_alike_of_occurs {t : Term} (occurs : x ∈ t.occurrences) (inner : t ≠ .var x) :
    ¬ (image x).Alike (t.subst image) := by
  intro alike
  have smaller : (image x).nodes < (t.subst image).nodes := nodes_lt_subst occurs inner
  have same := alike.nodes_eq
  omega

end Term

end CognitiveAgent
