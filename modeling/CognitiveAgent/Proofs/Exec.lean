import CognitiveAgent.Run.Setting

/-!
Computations that change the situation, seen from outside: what they return, whatever the
situation they start from.
-/

set_option autoImplicit false

namespace CognitiveAgent.Exec

variable {σ ω α β : Type}

theorem bind_apply (first : Exec σ ω α) (rest : α → Exec σ ω β) (situation : Situation σ ω) :
    (first >>= rest) situation = rest (first situation).1 (first situation).2 := rfl

def Returns (computation : Exec σ ω α) (holds : α → Prop) : Prop :=
  ∀ situation, holds (computation situation).1

theorem returns_pure {holds : α → Prop} {value : α} (here : holds value) :
    Returns (pure value : Exec σ ω α) holds := fun _ => here

theorem returns_any (computation : Exec σ ω α) : Returns computation fun _ => True :=
  fun _ => trivial

theorem Returns.bind {first : Exec σ ω α} {rest : α → Exec σ ω β} {middle : α → Prop}
    {holds : β → Prop} (before : Returns first middle)
    (after : ∀ value, middle value → Returns (rest value) holds) :
    Returns (first >>= rest) holds :=
  fun situation => after _ (before situation) _

theorem Returns.mono {computation : Exec σ ω α} {holds weaker : α → Prop}
    (strong : Returns computation holds) (implies : ∀ value, holds value → weaker value) :
    Returns computation weaker :=
  fun situation => implies _ (strong situation)

/-- A value that is only put in another form. -/
theorem Returns.map {computation : Exec σ ω α} {form : α → β} {holds : β → Prop}
    (returns : Returns computation fun value => holds (form value)) :
    Returns (computation >>= fun value => pure (form value)) holds :=
  returns

end CognitiveAgent.Exec
