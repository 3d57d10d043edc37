import CognitiveAgent.Proofs.Readings

/-!
The most general unifier. What reading equations adds to the bindings is as little as the equations
demand: under the result both sides of every equation become alike, and whatever replacement of the
variables makes them alike also agrees with the result. Main statements: unification ends, and what
it finds unifies the two terms; and it finds something wherever there is anything to be found, of
which every other unifier is an instance.
-/

set_option autoImplicit false

namespace CognitiveAgent

namespace Substitution

variable {s : Substitution} {image : String → Term}

def NaNFree (s : Substitution) : Prop := ∀ x term, s.get? x = some term → term.NaNFree

/-- The bindings, taken as equations, hold when all variables are replaced. -/
def HoldsUnder (s : Substitution) (image : String → Term) : Prop :=
  ∀ x term, s.get? x = some term → (image x).Alike (term.subst image)

theorem NaNFree.apply (free : s.NaNFree) (acyclic : s.Acyclic) {t : Term} (termFree : t.NaNFree) :
    (t.apply s).NaNFree := by
  have value (x : String) : ((Term.var x).apply s).NaNFree := by
    induction x using acyclic.induction with
    | step x ih =>
        cases found : s.get? x with
        | none =>
            rw [apply_of_unbound found]
            intro value member
            cases member
        | some term =>
            rw [acyclic.apply_of_bound found]
            apply (free x term found).subst
            intro y occurs
            exact ih y ⟨term, found, occurs⟩
  exact termFree.subst fun x _ => value x

theorem NaNFree.bind (free : s.NaNFree) {name : String} {term : Term} (termFree : term.NaNFree) :
    (s.bind name term).NaNFree := by
  intro x bound found
  rw [get?_bind] at found
  by_cases same : x = name
  · rw [if_pos same] at found
    cases found
    exact termFree
  · rw [if_neg same] at found
    exact free x bound found

theorem HoldsUnder.bind (holds : s.HoldsUnder image) {name : String} {term : Term}
    (also : (image name).Alike (term.subst image)) : (s.bind name term).HoldsUnder image := by
  intro x bound found
  rw [get?_bind] at found
  by_cases same : x = name
  · rw [if_pos same] at found
    cases found
    rw [same]
    exact also
  · rw [if_neg same] at found
    exact holds x bound found

/-- Where the bindings hold, instantiating under them first makes no difference. -/
theorem HoldsUnder.apply (holds : s.HoldsUnder image) (acyclic : s.Acyclic) (t : Term) :
    ((t.apply s).subst image).Alike (t.subst image) := by
  have whole (t : Term) :
      (t.apply s).subst image = t.subst fun x => ((Term.var x).apply s).subst image :=
    Term.subst_subst t
  have value (x : String) : (((Term.var x).apply s).subst image).Alike (image x) := by
    induction x using acyclic.induction with
    | step x ih =>
        cases found : s.get? x with
        | none =>
            rw [apply_of_unbound found]
            exact .refl (image x)
        | some term =>
            rw [acyclic.apply_of_bound found, whole]
            apply Term.Alike.trans _ (holds x term found).symm
            apply Term.alike_subst
            intro y occurs
            exact ih y ⟨term, found, occurs⟩
  rw [whole]
  exact Term.alike_subst fun x _ => value x

end Substitution

namespace Unification

def Solves (image : String → Term) (problem : Problem) : Prop :=
  ∀ equation ∈ problem, (equation.1.subst image).Alike (equation.2.subst image)

def NaNFree (problem : Problem) : Prop :=
  ∀ equation ∈ problem, equation.1.NaNFree ∧ equation.2.NaNFree

variable {s m : Substitution} {left right term : Term} {rest problem : Problem} {name : String}
variable {lefts rights : List Term} {image : String → Term} {result : Option Substitution}

private theorem solves_cons : Solves image ((left, right) :: rest) ↔
    (left.subst image).Alike (right.subst image) ∧ Solves image rest := List.forall_mem_cons

private theorem nanFree_cons : NaNFree ((left, right) :: rest) ↔
    (left.NaNFree ∧ right.NaNFree) ∧ NaNFree rest := List.forall_mem_cons

/-- The parts of two terms are alike one by one if the terms are. -/
theorem solves_parts (same : lefts.length = rights.length)
    (sides : (∃ functor, left = .compound functor lefts ∧ right = .compound functor rights) ∨
      left = .list lefts ∧ right = .list rights) :
    (left.subst image).Alike (right.subst image) ↔ Solves image (lefts.zip rights) := by
  unfold Solves
  rw [← Term.alikeAll_substAll_iff same]
  rcases sides with ⟨functor, rfl, rfl⟩ | ⟨rfl, rfl⟩
  · constructor
    · intro alike
      cases alike with
      | compound _ all => exact all
    · exact .compound functor
  · constructor
    · intro alike
      cases alike with
      | list all => exact all
    · exact .list

section Steps

variable (acyclic : s.Acyclic)
include acyclic

/-- The term to which a variable has to be bound is one of the two instances. -/
theorem Faces.nanFree_term (faces : Faces s left right (.demand name term)) (free : s.NaNFree)
    (leftFree : left.NaNFree) (rightFree : right.NaNFree) : term.NaNFree := by
  obtain ⟨_, ⟨_, there⟩ | ⟨here, _⟩⟩ := faces.fits acyclic
  · rw [← there]
    exact free.apply acyclic rightFree
  · rw [← here]
    exact free.apply acyclic leftFree

private theorem Faces.nanFree_parts (faces : Faces s left right (.parts lefts rights))
    (free : s.NaNFree)
    (leftFree : left.NaNFree) (rightFree : right.NaNFree) : NaNFree (lefts.zip rights) := by
  intro equation member
  have inside := List.of_mem_zip member
  have first := free.apply acyclic leftFree
  have second := free.apply acyclic rightFree
  obtain ⟨_, ⟨functor, here, there⟩ | ⟨here, there⟩⟩ := faces.fits acyclic
  · rw [here] at first
    rw [there] at second
    exact ⟨.of_mem_all first inside.1, .of_mem_all second inside.2⟩
  · rw [here] at first
    rw [there] at second
    exact ⟨.of_mem_all first inside.1, .of_mem_all second inside.2⟩

end Steps

/-! ### What reading finds -/

theorem Reads.extends (reads : Reads Substitution.Acyclic problem s result) (acyclic : s.Acyclic)
    (found : result = some m) : m.Acyclic ∧ m.Extends s := by
  induction reads with
  | done s =>
      cases found
      exact ⟨acyclic, .refl m⟩
  | settled _ _ _ ih | parts _ _ _ ih => exact ih acyclic found
  | clash | circular => cases found
  | @binding left right term name rest s result now faces outside later ih =>
      obtain ⟨resultAcyclic, kept⟩ := ih (faces.acyclic_bind acyclic outside) found
      have unbound := (faces.unbound acyclic).1
      exact ⟨resultAcyclic, kept.trans (Substitution.extends_bind unbound term)⟩

theorem Reads.mem_domain (reads : Reads Substitution.Acyclic problem s result)
    (found : result = some m) {x : String} (bound : x ∈ m.domain) :
    x ∈ s.domain ∨ Mentions (under s problem) x := by
  induction reads with
  | done s =>
      cases found
      exact .inl bound
  | settled now faces _ ih =>
      exact (ih found).imp_right fun later => mentions_cons.mpr (.inr later)
  | clash | circular => cases found
  | @binding left right term name rest s result now faces outside later ih =>
      rcases ih found with earlier | mentioned
      · rcases Substitution.mem_domain_bind.mp earlier with rfl | before
        · exact .inr (faces.mentions now rest).1
        · exact .inl before
      · exact .inr (faces.mentions_bind now outside mentioned).2
  | parts now faces _ ih => exact (ih found).imp_right (faces.mentions_parts now)

theorem Reads.nanFree (reads : Reads Substitution.Acyclic problem s result)
    (free : s.NaNFree) (problemFree : NaNFree problem) (found : result = some m) : m.NaNFree := by
  induction reads with
  | done s =>
      cases found
      exact free
  | settled _ _ _ ih => exact ih free (nanFree_cons.mp problemFree).2 found
  | clash | circular => cases found
  | binding now faces _ _ ih =>
      obtain ⟨⟨leftFree, rightFree⟩, restFree⟩ := nanFree_cons.mp problemFree
      exact ih (free.bind (faces.nanFree_term now free leftFree rightFree)) restFree found
  | parts now faces _ ih =>
      obtain ⟨⟨leftFree, rightFree⟩, restFree⟩ := nanFree_cons.mp problemFree
      apply ih free _ found
      intro equation member
      rcases List.mem_append.mp member with inside | later
      · exact faces.nanFree_parts now free leftFree rightFree equation inside
      · exact restFree equation later

/-- Under what reading finds, the sides of all equations are alike. -/
theorem Reads.solves (reads : Reads Substitution.Acyclic problem s result) (acyclic : s.Acyclic)
    (found : result = some m) : Solves (m.value m.size) problem := by
  have through {s : Substitution} {left right : Term} (acyclic : s.Acyclic) (last : m.Acyclic)
      (kept : m.Extends s) (alike : ((left.apply s).apply m).Alike ((right.apply s).apply m)) :
      (left.apply m).Alike (right.apply m) := by
    rw [kept.apply_apply last acyclic, kept.apply_apply last acyclic] at alike
    exact alike
  induction reads with
  | done s =>
      intro equation member
      cases member
  | clash | circular => cases found
  | @settled left right rest s result now faces later ih =>
      obtain ⟨last, kept⟩ := later.extends acyclic found
      rw [solves_cons]
      constructor
      · apply through acyclic last kept
        exact Term.Alike.subst _ (faces.fits acyclic)
      · exact ih acyclic found
  | @binding left right term name rest s result now faces outside later ih =>
      have bindAcyclic := faces.acyclic_bind acyclic outside
      obtain ⟨last, kept⟩ := later.extends bindAcyclic found
      have extended := kept.trans (Substitution.extends_bind (faces.unbound acyclic).1 term)
      have bound : m.get? name = some term := by
        apply kept
        rw [Substitution.get?_bind, if_pos rfl]
      have same : (Term.var name).apply m = term.apply m := last.apply_of_bound bound
      rw [solves_cons]
      constructor
      · apply through acyclic last extended
        obtain ⟨_, ⟨here, there⟩ | ⟨here, there⟩⟩ := faces.fits acyclic
        · rw [here, there, same]
          exact .refl _
        · rw [here, there, same]
          exact .refl _
      · exact ih bindAcyclic found
  | @parts left right lefts rights rest s result now faces later ih =>
      obtain ⟨last, kept⟩ := later.extends acyclic found
      have all := ih acyclic found
      obtain ⟨same, sides⟩ := faces.fits acyclic
      rw [solves_cons]
      constructor
      · apply through acyclic last kept
        apply (solves_parts same sides).mpr
        exact fun equation inside => all equation (List.mem_append_left _ inside)
      · exact fun equation inside => all equation (List.mem_append_right _ inside)

/-! ### What any solution has in common with it -/

/-- Reading finds something if the equations have a solution in which the bindings at the start
hold, and then the bindings at the end hold in it as well. -/
theorem Reads.holdsUnder (reads : Reads Substitution.Acyclic problem s result)
    (free : s.NaNFree) (problemFree : NaNFree problem) (holds : s.HoldsUnder image)
    (solved : Solves image problem) : ∃ m, result = some m ∧ m.HoldsUnder image := by
  have instances {s : Substitution} {left right : Term} (acyclic : s.Acyclic)
      (holds : s.HoldsUnder image) (alike : (left.subst image).Alike (right.subst image)) :
      ((left.apply s).subst image).Alike ((right.apply s).subst image) :=
    (holds.apply acyclic left).trans (alike.trans (holds.apply acyclic right).symm)
  have demanded {s : Substitution} {left right term : Term} {name : String} (acyclic : s.Acyclic)
      (holds : s.HoldsUnder image) (faces : Faces s left right (.demand name term))
      (alike : (left.subst image).Alike (right.subst image)) :
      term ≠ .var name ∧ (image name).Alike (term.subst image) := by
    have whole := instances acyclic holds alike
    obtain ⟨proper, ⟨here, there⟩ | ⟨here, there⟩⟩ := faces.fits acyclic
    · rw [here, there] at whole
      exact ⟨proper, whole⟩
    · rw [here, there] at whole
      exact ⟨proper, whole.symm⟩
  induction reads with
  | done s => exact ⟨s, rfl, holds⟩
  | settled _ _ _ ih =>
      exact ih free (nanFree_cons.mp problemFree).2 holds (solves_cons.mp solved).2
  | clash rest now faces =>
      exfalso
      have leftFree := free.apply now (nanFree_cons.mp problemFree).1.1
      exact faces.fits now leftFree image (instances now holds (solves_cons.mp solved).1)
  | circular rest now faces inside =>
      exfalso
      obtain ⟨proper, alike⟩ := demanded now holds faces (solves_cons.mp solved).1
      exact Term.not_alike_of_occurs (Term.occurs_iff.mp inside) proper alike
  | binding now faces _ _ ih =>
      obtain ⟨⟨leftFree, rightFree⟩, restFree⟩ := nanFree_cons.mp problemFree
      obtain ⟨here, later⟩ := solves_cons.mp solved
      apply ih (free.bind (faces.nanFree_term now free leftFree rightFree)) restFree
      · exact holds.bind (demanded now holds faces here).2
      · exact later
  | parts now faces _ ih =>
      obtain ⟨⟨leftFree, rightFree⟩, restFree⟩ := nanFree_cons.mp problemFree
      obtain ⟨here, later⟩ := solves_cons.mp solved
      obtain ⟨same, sides⟩ := faces.fits now
      have inner := (solves_parts same sides).mp (instances now holds here)
      have innerFree := faces.nanFree_parts now free leftFree rightFree
      apply ih free _ holds
      · exact fun equation member => (List.mem_append.mp member).elim (inner equation) (later equation)
      · exact fun equation member =>
          (List.mem_append.mp member).elim (innerFree equation) (restFree equation)

end Unification

namespace Term

theorem mgu_reads (left right : Term) :
    Unification.Reads Substitution.Acyclic [(left, right)] .empty (left.mgu right) :=
  reads_unify Substitution.acyclic_empty left right

theorem nanFree_mgu {left right : Term} (leftFree : left.NaNFree) (rightFree : right.NaNFree)
    {s : Substitution} (found : left.mgu right = some s) : s.NaNFree := by
  apply (mgu_reads left right).nanFree _ _ found
  · intro x term impossible
    cases impossible
  · rw [Unification.nanFree_cons]
    exact ⟨⟨leftFree, rightFree⟩, fun _ member => absurd member List.not_mem_nil⟩

theorem mgu_holdsUnder {left right : Term} (leftFree : left.NaNFree) (rightFree : right.NaNFree)
    {image : String → Term} (same : (left.subst image).equal (right.subst image) = true) :
    ∃ s, left.mgu right = some s ∧ s.HoldsUnder image := by
  apply (mgu_reads left right).holdsUnder
  · intro x term impossible
    cases impossible
  · rw [Unification.nanFree_cons]
    exact ⟨⟨leftFree, rightFree⟩, fun _ member => absurd member List.not_mem_nil⟩
  · intro x term impossible
    cases impossible
  · rw [Unification.solves_cons]
    exact ⟨alike_of_equal _ _ same, fun _ member => absurd member List.not_mem_nil⟩

end Term

/-- Unification comes to an end, whatever the terms: reading them without a bound gives the unifier
and nothing else, and under way no variable ever reaches itself. If the terms are without NaN, the
unifier binds variables of theirs only, and their instances under it are equal. -/
theorem mgu_sound {left right : Term} (leftFree : left.NaNFree) (rightFree : right.NaNFree) :
    (∀ result, Unification.Reads (fun _ => True) [(left, right)] .empty result ↔
      result = left.mgu right) ∧
    Unification.Reads Substitution.Acyclic [(left, right)] .empty (left.mgu right) ∧
    ∀ s, left.mgu right = some s →
      s.Acyclic ∧ (∀ x ∈ s.domain, x ∈ left.freeVars ∨ x ∈ right.freeVars) ∧
      left.Resolves s (left.apply s) ∧ right.Resolves s (right.apply s) ∧
      (left.apply s).equal (right.apply s) = true := by
  have reads := Term.mgu_reads left right
  refine ⟨Term.reads_iff_unify Substitution.acyclic_empty left right, reads, ?_⟩
  intro s found
  obtain ⟨acyclic, _⟩ := reads.extends Substitution.acyclic_empty found
  have free := Term.nanFree_mgu leftFree rightFree found
  refine ⟨acyclic, ?_, Term.resolves_of_acyclic acyclic left,
    Term.resolves_of_acyclic acyclic right, ?_⟩
  · intro x bound
    rcases reads.mem_domain found bound with earlier | mentions
    · cases earlier
    · simpa [Unification.Mentions, Unification.under, Term.mem_freeVars,
        Substitution.apply_of_fresh (s := .empty) fun _ _ => List.not_mem_nil] using mentions
  · have alike := reads.solves Substitution.acyclic_empty found (left, right) List.mem_cons_self
    exact alike.equal (free.apply acyclic leftFree)

def outward : Term :=
  .compound "route" [.var "X", .compound "step" [.var "Y"], .number .zero]

def homeward : Term :=
  .compound "route" [.compound "step" [.var "Z"], .var "X", .number (.ofWord (Nat.pow 2 63))]

theorem mgu_sound_of_route :
    outward.NaNFree ∧ homeward.NaNFree ∧ ∃ s, outward.mgu homeward = some s ∧
      s.domain = ["X", "Y"] ∧ s.Acyclic ∧
      (outward.apply s).equal (homeward.apply s) = true := by
  have outwardFree : outward.NaNFree := by decide +kernel
  have homewardFree : homeward.NaNFree := by decide +kernel
  have bound : (outward.mgu homeward).map Substitution.domain = some ["X", "Y"] := by
    decide +kernel
  obtain ⟨s, found, domain⟩ := Option.map_eq_some_iff.mp bound
  obtain ⟨acyclic, _, _, _, equal⟩ := (mgu_sound outwardFree homewardFree).2.2 s found
  exact ⟨outwardFree, homewardFree, s, found, domain, acyclic, equal⟩

/-- If some replacement of the variables makes two terms without NaN equal, they have a unifier, and
every such replacement makes of an instance under the unifier what it makes of the term itself: terms
that differ in nothing but equal numbers, and so are equal if the term is without NaN too. -/
theorem mgu_most_general {left right : Term} (leftFree : left.NaNFree)
    (rightFree : right.NaNFree) :
    (∀ image : String → Term, (∀ x, (image x).NaNFree) →
      (left.subst image).equal (right.subst image) = true →
      ∃ s, left.mgu right = some s ∧
        ∀ t : Term, t.Resolves s (t.apply s) ∧
          ((t.apply s).subst image).Alike (t.subst image) ∧
          (t.NaNFree → ((t.apply s).subst image).equal (t.subst image) = true)) ∧
    (left.mgu right = none → ∀ image : String → Term, (∀ x, (image x).NaNFree) →
      (left.subst image).equal (right.subst image) = false) := by
  constructor
  · intro image images same
    obtain ⟨s, found, holds⟩ := Term.mgu_holdsUnder leftFree rightFree same
    obtain ⟨acyclic, _⟩ := (Term.mgu_reads left right).extends Substitution.acyclic_empty found
    have free := Term.nanFree_mgu leftFree rightFree found
    refine ⟨s, found, fun t => ?_⟩
    have alike := holds.apply acyclic t
    refine ⟨Term.resolves_of_acyclic acyclic t, alike, fun termFree => ?_⟩
    exact alike.equal ((free.apply acyclic termFree).subst fun x _ => images x)
  · intro nothing image _
    cases same : (left.subst image).equal (right.subst image) with
    | false => rfl
    | true =>
        obtain ⟨s, found, _⟩ := Term.mgu_holdsUnder leftFree rightFree same
        rw [nothing] at found
        cases found

def homing (x : String) : Term :=
  if x = "X" then .compound "step" [.atom "home"] else .atom "home"

theorem mgu_most_general_of_route :
    (∀ x, (homing x).NaNFree) ∧
    (outward.subst homing).equal (homeward.subst homing) = true ∧
    ∃ s, outward.mgu homeward = some s ∧
      ∀ t : Term, t.NaNFree → ((t.apply s).subst homing).equal (t.subst homing) = true := by
  have outwardFree : outward.NaNFree := by decide +kernel
  have homewardFree : homeward.NaNFree := by decide +kernel
  have images (x : String) : (homing x).NaNFree := by
    by_cases away : x = "X"
    · rw [away]
      decide +kernel
    · rw [homing, if_neg away]
      decide +kernel
  have same : (outward.subst homing).equal (homeward.subst homing) = true := by decide +kernel
  obtain ⟨s, found, general⟩ :=
    (mgu_most_general outwardFree homewardFree).1 homing images same
  exact ⟨images, same, s, found, fun t free => (general t).2.2 free⟩

end CognitiveAgent
