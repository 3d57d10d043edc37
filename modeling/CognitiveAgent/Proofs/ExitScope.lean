import CognitiveAgent.Proofs.Routing
import CognitiveAgent.Proofs.Stopping

/-!
How far an exit reaches. It leaves the innermost module that is not anonymous, or that no action
has called, and with it the anonymous modules inside. What stands below is not stopped.
-/

set_option autoImplicit false

namespace CognitiveAgent

variable {σ ω : Type}

/-- Whether an exit inside a module on these frames goes no further: the module is not anonymous,
or it has not been called by an action. -/
def ModuleFrame.endsExit (g : ModuleFrame) : List Frame → Bool
  | .action _ :: _ => !g.activation.module.anonymous
  | _ => true

/-- An exit above these frames leaves `M`, which stands on `outer`, and nothing below it. -/
structure ExitScope (frames : List Frame) (M : ModuleFrame) (outer : List Frame) : Prop where
  inside : (.module M :: outer) <:+ frames
  ends : M.endsExit outer = true
  innermost : ∀ (g : ModuleFrame) (lower : List Frame), (.module g :: lower) <:+ frames →
    outer.length < lower.length → g.endsExit lower = false

namespace ExitScope

theorem here (g : ModuleFrame) (below : List Frame) (ends : g.endsExit below = true) :
    ExitScope (.module g :: below) g below := by
  refine ⟨List.suffix_refl _, ends, ?_⟩
  intro h lower suffix longer
  have bound := suffix.length_le
  rw [List.length_cons, List.length_cons] at bound
  omega

theorem further {M : ModuleFrame} {outer below : List Frame} (scope : ExitScope below M outer)
    (f : Frame) (passes : ∀ g, f = .module g → g.endsExit below = false) :
    ExitScope (f :: below) M outer := by
  refine ⟨scope.inside.trans (List.suffix_cons _ _), scope.ends, ?_⟩
  intro g lower suffix longer
  rcases List.suffix_cons_iff.mp suffix with same | held
  · obtain ⟨isModule, rfl⟩ := List.cons.inj same
    exact passes g isModule.symm
  · exact scope.innermost g lower held longer

private theorem exists_of_module (upper : List Frame) (g : ModuleFrame) :
    ∃ M outer, ExitScope (upper ++ [.module g]) M outer := by
  induction upper with
  | nil => exact ⟨g, [], here g [] rfl⟩
  | cons f upper ih =>
      obtain ⟨M, outer, scope⟩ := ih
      by_cases ends : ∃ h, f = .module h ∧ h.endsExit (upper ++ [.module g]) = true
      · obtain ⟨h, rfl, ends⟩ := ends
        exact ⟨h, _, here h _ ends⟩
      · refine ⟨M, outer, scope.further f ?_⟩
        intro h isModule
        exact Bool.eq_false_iff.mpr fun reached => ends ⟨h, isModule, reached⟩

end ExitScope

namespace Setting

variable {S : Setting σ ω} {f : Frame} {frames rest below outer : List Frame} {M : ModuleFrame}
variable {x : ActionFrame} {r : RunResult}

theorem Nested.exists_bottom (nested : S.Nested frames) :
    ∃ upper g, frames = upper ++ [.module g] := by
  induction nested with
  | bottom g => exact ⟨[], g, rfl⟩
  | @above f top below holes under awaits ih =>
      obtain ⟨upper, g, same⟩ := ih
      refine ⟨top :: (List.replicate holes .hole ++ upper), g, ?_⟩
      rw [same, List.cons_append, List.append_assoc]

theorem Nested.exists_exitScope (nested : S.Nested (.action x :: below)) :
    ∃ M outer, ExitScope below M outer := by
  obtain ⟨upper, g, shape⟩ := nested.exists_bottom
  cases upper with
  | nil => cases (List.cons.inj shape).1
  | cons f upper =>
      rw [(List.cons.inj shape).2]
      exact ExitScope.exists_of_module upper g

private theorem Nested.awaited {top : Frame} (nested : S.Nested (top :: below)) (solid : f ≠ .hole)
    (inside : (f :: rest) <:+ below) :
    ∃ child holes, (child :: (List.replicate holes .hole ++ f :: rest)) <:+ top :: below ∧
      S.Awaits f holes child.origin := by
  obtain ⟨_, same | found⟩ := nested.split solid (inside.trans (List.suffix_cons _ _))
  · have bound := inside.length_le
    rw [same, List.length_cons] at bound
    omega
  · exact found

/-- Within the scope of an exit, every action waits for an anonymous module. -/
theorem anonymous_call (nested : S.Nested (.action x :: below)) (scope : ExitScope below M outer)
    {a : ActionFrame} (inside : (.action a :: rest) <:+ below)
    (within : (.module M :: outer) <:+ rest) :
    a.called = some true ∧ ∃ g : ModuleFrame, g.activation.module.anonymous = true ∧
      (.module g :: .action a :: rest) <:+ below := by
  obtain ⟨child, holes, suffix, awaits⟩ := nested.awaited Frame.noConfusion inside
  generalize same : child.origin = origin at awaits
  cases awaits with
  | @module _ target params source m bindings isCall found bound called =>
      cases child with
      | rule g | combo g | action g | hole => cases same
      | module g =>
          have callee : g.activation.module = m :=
            congrArg (fun f => f.activation.module) (Frame.module.inj same)
          have held := suffix_of_ne Frame.noConfusion suffix
          have longer : outer.length < (Frame.action a :: rest).length := by
            have bound := within.length_le
            rw [List.length_cons] at bound ⊢
            omega
          have passes : (!g.activation.module.anonymous) = false :=
            scope.innermost g (.action a :: rest) held longer
          have anonymous : g.activation.module.anonymous = true := by
            rw [← Bool.not_not g.activation.module.anonymous, passes, Bool.not_false]
          rw [callee] at anonymous
          rw [called, anonymous]
          exact ⟨rfl, g, by rw [callee]; exact anonymous, held⟩

/-- Within the scope of an exit, no module waits for an event pass. -/
theorem own_work (nested : S.Nested (.action x :: below)) (scope : ExitScope below M outer)
    {g : ModuleFrame} (inside : (.module g :: rest) <:+ below)
    (within : (.module M :: outer) <:+ .module g :: rest) :
    ∃ holes child, S.Awaits (.module g) holes child ∧ g.strategy.waitsForEvents = false := by
  obtain ⟨child, holes, suffix, awaits⟩ := nested.awaited Frame.noConfusion inside
  refine ⟨holes, child.origin, awaits, ?_⟩
  generalize same : child.origin = origin at awaits
  cases awaits with
  | rule active awaiting => simp only [StrategyState.waitsForEvents, awaiting]; rfl
  | @ownCombo _ strategy _ _ _ active awaiting =>
      cases strategy with
      | passes state => cases awaiting
      | choices state =>
          have isCombo : state.awaiting = .combo := eq_of_beq awaiting
          simp only [StrategyState.waitsForEvents, isCombo]
          rfl
      | plans state => rfl
  | events active awaiting main event =>
      -- The event module would end the scope above this one.
      cases child with
      | rule g | combo g | action g | hole => cases same
      | module h =>
          have longer := within.length_le
          have impossible := scope.innermost h _ (suffix_of_ne Frame.noConfusion suffix) (by
            simp only [List.length_append, List.length_replicate, List.length_cons] at longer ⊢
            omega)
          cases impossible

/-- A module where an exit ends stands on nothing, on the call of a named module, or on the main
module that waits for its event pass. -/
theorem Nested.below_exited (nested : S.Nested (.module M :: outer))
    (ends : M.endsExit outer = true) :
    outer = [] ∨ (∃ a rest, outer = .action a :: rest ∧ a.called = some false) ∨
    ∃ main rest, outer = List.replicate 3 .hole ++ .module main :: rest ∧
      main.activation.Active ∧ main.activation.isMain = true ∧
      main.strategy.waitsForEvents = true := by
  cases nested with
  | bottom => exact .inl rfl
  | above under awaits =>
      generalize same : (Frame.module M).origin = origin at awaits
      cases awaits with
      | @module a target params source m bindings isCall found bound called =>
          have callee : M.activation.module = m :=
            congrArg (fun f => f.activation.module) (Frame.module.inj same)
          have named : (!M.activation.module.anonymous) = true := ends
          rw [callee, Bool.not_eq_true'] at named
          rw [named] at called
          exact .inr (.inl ⟨a, _, rfl, called⟩)
      | events active awaiting main event =>
          exact .inr (.inr ⟨_, _, rfl, active, main, awaiting⟩)
      | action | combo | rule | ownCombo => cases same

/-- An exit that is to be performed waits for nothing. -/
theorem Routed.before_exit {stack : CallStack} (routed : S.Routed stack)
    (frames : stack.frames = .action x :: below) (exits : x.action = .mental .exit) :
    S.Nested (.action x :: below) ∧ x.called = none ∧ stack.previous = none := by
  cases routed with
  | ready nested idle =>
      obtain ⟨rfl, rfl⟩ := List.cons.inj frames
      exact ⟨nested, Option.not_isSome_iff_eq_none.mp (Bool.eq_false_iff.mp idle), rfl⟩
  | @returned f child rest holes left completed nested awaits bound =>
      cases left with
      | succ left => cases (List.cons.inj frames).1
      | zero =>
          obtain ⟨rfl, rfl⟩ := List.cons.inj frames
          cases awaits with
          | module isCall => rw [exits] at isCall; cases isCall
  | finished completed => cases frames

/-- The frames `below` hold the call of an anonymous module in a combo on `rest`. -/
def CallsPart (below rest : List Frame) : Prop :=
  ∃ (g : ModuleFrame) (a : ActionFrame) (c : ComboFrame),
    g.activation.module.anonymous = true ∧ (.module g :: .action a :: .combo c :: rest) <:+ below

theorem CallsPart.suffix (calls : CallsPart below rest) : rest <:+ below := by
  obtain ⟨g, a, c, _, around⟩ := calls
  have lower : rest <:+ .module g :: .action a :: .combo c :: rest :=
    ⟨[.module g, .action a, .combo c], rfl⟩
  exact lower.trans around

/-- How a frame is resumed that a request to stop has reached. It is done and hands the request
on, or it is a module and does nothing but leave, or it is a combo around the call of an anonymous
module and starts its next action. -/
inductive GivesWay (S : Setting σ ω) (below : List Frame) :
    Frame → List Frame → Exec σ ω (Frame × Outcome) → Prop where
  | stops {f later : Frame} {rest : List Frame} {r : RunResult} (asks : r.isRunning = false) :
      GivesWay S below f rest (pure (later, .done r))
  | leaves {g : ModuleFrame} {rest : List Frame} {a : Activation} {strategy : StrategyState}
      (asked : a.result.isRunning = false) :
      GivesWay S below (.module g) rest
        ((fun left => (Frame.module ⟨left.1, strategy⟩, left.2)) <$> S.conclude g.strategy a)
  | goesOn {c : ComboFrame} {rest : List Frame} {action : Action} {pending : List Action}
      {result : RunResult} (calls : CallsPart below rest)
      (more : c.pending = some (action :: pending)) (asks : result.isRunning = false) :
      GivesWay S below (.combo c) rest
        (pure (.combo { c with pending := some pending, lastWasCall := action.isCall, result },
          .yield [.action { action, substitution := c.substitution, focus := c.focus,
                            order := c.order }]))

/-- The frames that an exit leaves give way, each when the request to stop comes to it. -/
theorem gives_way (nested : S.Nested (.action x :: below)) (exits : x.action = .mental .exit)
    (scope : ExitScope below M outer) (inside : (f :: rest) <:+ below)
    (within : (.module M :: outer) <:+ f :: rest) (asked : r.isRunning = false)
    (kind : FrameKind) : S.GivesWay below f rest (S.resume f (some ⟨kind, .ok r⟩)) := by
  have waiting (solid : f ≠ .hole) := nested.awaited solid inside
  have lower (other : Frame.module M ≠ f) := suffix_of_ne other within
  cases f with
  | hole => exact .stops asked
  | action a =>
      have called := (anonymous_call nested scope inside (lower Frame.noConfusion)).1
      rw [S.resume_called called]
      exact .stops asked
  | rule g =>
      obtain ⟨child, holes, suffix, awaits⟩ := waiting Frame.noConfusion
      generalize child.origin = origin at awaits
      cases awaits with
      | combo begun =>
          rw [S.resume_fired begun asked]
          exact .stops (RunResult.merge_stops_right _ asked)
  | combo c =>
      obtain ⟨child, holes, suffix, awaits⟩ := waiting Frame.noConfusion
      generalize same : child.origin = origin at awaits
      cases awaits with
      | @action _ performed _ begun last =>
          rcases c.resume_stopping begun (RunResult.merge_stops_right _ asked) with
            ⟨later, result, resumed, asks⟩ | ⟨action, pending, result, more, asks, call, resumed⟩
          · rw [resume_combo, resumed]
            exact .stops asks
          · rw [resume_combo, resumed]
            subst more
            have isCall : performed.isCall = true := by
              rcases call with call | succeeds
              · rw [← last]; exact call
              · rw [RunResult.isFailure_of_stops asked] at succeeds; cases succeeds
            cases child with
            | module g | rule g | combo g | hole => cases same
            | action a =>
                have sameAction : a.action = performed :=
                  congrArg ActionFrame.action (Frame.action.inj same)
                rcases List.suffix_cons_iff.mp suffix with top | held
                · -- The exit itself is no call, so its own combo does not go on.
                  have isExit : a = x := Frame.action.inj (List.cons.inj top).1
                  rw [← sameAction, isExit, exits] at isCall
                  cases isCall
                · obtain ⟨_, g, anonymous, around⟩ := anonymous_call nested scope held
                    ((lower Frame.noConfusion).trans (List.suffix_cons _ _))
                  exact .goesOn ⟨g, a, c, anonymous, around⟩ begun asks
  | module g =>
      obtain ⟨holes, child, awaits, own⟩ := own_work nested scope inside within
      obtain ⟨strategy, resumed⟩ := S.resume_leaving awaits own asked kind
      rw [resumed]
      exact .leaves (RunResult.merge_stops_right _ asked)

/-- A combo that goes on after the request to stop hands it on in the end. -/
theorem gives_way_again {c : ComboFrame} (calls : CallsPart below rest)
    (begun : c.pending.isSome = true) (asked : c.result.isRunning = false) (kind : FrameKind)
    (r : RunResult) :
    S.GivesWay below (.combo c) rest (S.resume (.combo c) (some ⟨kind, .ok r⟩)) := by
  obtain ⟨pending, begun⟩ := Option.isSome_iff_exists.mp begun
  rcases c.resume_stopping begun (RunResult.merge_stops_left asked r) with
    ⟨later, result, resumed, asks⟩ | ⟨action, pending, result, more, asks, _, resumed⟩
  · rw [resume_combo, resumed]
    exact .stops asks
  · rw [resume_combo, resumed]
    subst more
    exact .goesOn calls begun asks

end Setting

def CallStack.failed (stack : CallStack) : Bool :=
  match stack.result? with
  | some (.error _) => true
  | _ => false

namespace History

variable {H : History σ ω} {t n : Nat} {top : Frame} {frames rest below outer : List Frame}
variable {M : ModuleFrame}

def Unfailing (H : History σ ω) (t n : Nat) : Prop :=
  ∀ i, t < i → i ≤ n → (H.stack i).failed = false

theorem Unfailing.before {m : Nat} (unfailing : H.Unfailing t n) (earlier : m ≤ n) :
    H.Unfailing t m :=
  fun i after bound => unfailing i after (Nat.le_trans bound earlier)

/-- The pop that follows `t` others performs an exit above `below`. -/
structure Exits (H : History σ ω) (t : Nat) (below : List Frame) (M : ModuleFrame)
    (outer : List Frame) : Prop where
  routed : ∀ n, H.setting.Routed (H.stack n)
  performs : ∃ x : ActionFrame, H.setting.Nested (.action x :: below) ∧ x.action = .mental .exit
  performed : H.stack (t + 1) =
    ⟨below, some ⟨.action, .ok { RunResult.action with status := .softStop }⟩⟩
  scope : ExitScope below M outer

/-- An exit is under way: the frame on top gives way to it, or lies above a combo that goes on
although the exit has passed through it. -/
inductive Exiting (H : History σ ω) (t : Nat) (below : List Frame) (M : ModuleFrame)
    (outer : List Frame) (n : Nat) : Prop where
  | facing {top : Frame} {rest : List Frame} (frames : (H.stack n).frames = top :: rest)
      (gives : H.setting.GivesWay below top rest (H.setting.resume top (H.stack n).previous))
      (lower : rest <:+ below) (within : (.module M :: outer) <:+ top :: rest)
  | aside {top : Frame} {upper rest : List Frame} {c : ComboFrame}
      (frames : (H.stack n).frames = top :: (upper ++ .combo c :: rest))
      (calls : Setting.CallsPart below rest) (begun : c.pending.isSome = true)
      (asked : c.result.isRunning = false) (within : (.module M :: outer) <:+ rest)
      (opened : ∃ i, t < i ∧ i ≤ n ∧ (H.stack i).depth = rest.length + 1)

private theorem Exiting.of_request (exits : H.Exits t below M outer) {kind : FrameKind}
    {r : RunResult} (stack : H.stack n = ⟨frames, some ⟨kind, .ok r⟩⟩) (asked : r.isRunning = false)
    (inside : frames <:+ below) (within : (.module M :: outer) <:+ frames) :
    H.Exiting t below M outer n := by
  cases frames with
  | nil => cases List.suffix_nil.mp within
  | cons top rest =>
      obtain ⟨x, nested, isExit⟩ := exits.performs
      refine .facing (by rw [stack]) ?_ ((List.suffix_cons _ _).trans inside) within
      rw [stack]
      exact Setting.gives_way nested isExit exits.scope inside within asked kind

/-- A frame that gives way is gone after the pop, unless it is a combo that goes on. -/
theorem stack_succ_of_gives_way (frames : (H.stack n).frames = top :: rest)
    (gives : H.setting.GivesWay below top rest (H.setting.resume top (H.stack n).previous))
    (unfailing : (H.stack (n + 1)).failed = false) :
    (∃ r, r.isRunning = false ∧ H.stack (n + 1) = ⟨rest, some ⟨top.kind, .ok r⟩⟩) ∨
    ∃ (c later : ComboFrame) (action : ActionFrame), top = .combo c ∧
      (H.stack (n + 1)).frames = .action action :: .combo later :: rest ∧
      Setting.CallsPart below rest ∧ later.pending.isSome = true ∧
      later.result.isRunning = false := by
  obtain ⟨later, outcome, resumes⟩ := exists_resumes frames
  have returns := resumes.returns
  have settled := resumes.stack_succ
  rw [settled] at unfailing ⊢
  rw [← Frame.kind_eq_of_origin resumes.proper.1]
  generalize H.setting.resume top (H.stack n).previous = computation at gives returns
  cases gives with
  | stops asks =>
      obtain ⟨rfl, rfl⟩ := Prod.mk.inj returns
      exact .inl ⟨_, asks, rfl⟩
  | @leaves g _ a strategy asked =>
      obtain ⟨final, asks⟩ := H.setting.conclude_stopping g.strategy asked (H.situation n)
      have same : (H.setting.conclude g.strategy a (H.situation n)).1.2 = outcome :=
        congrArg Prod.snd returns
      rw [same] at final asks
      cases outcome with
      | yield children => obtain ⟨_, impossible⟩ := final; cases impossible
      | done r => exact .inl ⟨r, asks r rfl, rfl⟩
      | failed failure => cases unfailing
  | goesOn calls more asks =>
      obtain ⟨rfl, rfl⟩ := Prod.mk.inj returns
      exact .inr ⟨_, _, _, rfl, rfl, calls, rfl, asks⟩

/-- A combo that has gone on finds the result of its action, and gives way again. -/
theorem Exiting.of_combo (exits : H.Exits t below M outer) {c : ComboFrame}
    (frames : (H.stack n).frames = .combo c :: rest) (unfailing : (H.stack n).failed = false)
    (calls : Setting.CallsPart below rest) (begun : c.pending.isSome = true)
    (asked : c.result.isRunning = false) (within : (.module M :: outer) <:+ rest) :
    H.Exiting t below M outer n := by
  obtain ⟨completed, _, _, _, held, _⟩ := (exits.routed n).exists_waiting frames (.inr begun)
  obtain ⟨kind, result⟩ := completed
  cases result with
  | error failure =>
      rw [CallStack.failed, CallStack.result?, held] at unfailing
      cases unfailing
  | ok r =>
      refine .facing frames ?_ calls.suffix (within.trans (List.suffix_cons _ _))
      rw [held]
      exact Setting.gives_way_again calls begun asked kind r

/-- One pop takes an exit further, or takes the module off that it leaves. -/
theorem Exiting.step (exits : H.Exits t below M outer) (now : H.Exiting t below M outer n)
    (after : t < n) (unfailing : H.Unfailing t (n + 1)) :
    H.Exiting t below M outer (n + 1) ∨
      ∃ r, r.isRunning = false ∧ H.stack (n + 1) = ⟨outer, some ⟨.module, .ok r⟩⟩ := by
  have clean : (H.stack (n + 1)).failed = false := unfailing (n + 1) (by omega) (Nat.le_refl _)
  cases now with
  | @facing top rest frames gives lower within =>
      rcases stack_succ_of_gives_way frames gives clean with
        ⟨r, asked, stack⟩ | ⟨c, later, action, isCombo, next, calls, begun, asked⟩
      · rcases List.suffix_cons_iff.mp within with same | held
        · obtain ⟨rfl, rfl⟩ := List.cons.inj same
          exact .inr ⟨r, asked, stack⟩
        · exact .inl (.of_request exits stack asked lower held)
      · subst isCombo
        have depth : (H.stack n).depth = rest.length + 1 := by
          rw [CallStack.depth, frames, List.length_cons]
        have shape : (H.stack (n + 1)).frames = .action action :: ([] ++ .combo later :: rest) :=
          next
        exact .inl (.aside shape calls begun asked (Setting.suffix_of_ne Frame.noConfusion within)
          ⟨n, after, by omega, depth⟩)
  | aside frames calls begun asked within opened =>
      obtain ⟨later, outcome, resumes⟩ := exists_resumes frames
      obtain ⟨above, next⟩ := resumes.exists_above
      rw [← List.append_assoc] at next
      -- Either something is left above the combo, or it is the combo's turn again.
      generalize above ++ _ = remaining at next
      cases remaining with
      | nil => exact .inl (.of_combo exits next clean calls begun asked within)
      | cons u us =>
          obtain ⟨i, later, bound, depth⟩ := opened
          exact .inl (.aside next calls begun asked within ⟨i, later, by omega, depth⟩)

/-- As long as nothing fails, an exit stays under way until its module has left. -/
theorem exiting_or_left (exits : H.Exits t below M outer) (after : t < n)
    (unfailing : H.Unfailing t n) :
    H.Exiting t below M outer n ∨ ∃ i r, t < i ∧ i ≤ n ∧ r.isRunning = false ∧
      H.stack i = ⟨outer, some ⟨.module, .ok r⟩⟩ := by
  induction n with
  | zero => cases after
  | succ n ih =>
      by_cases first : n = t
      · subst n
        exact .inl (.of_request exits exits.performed rfl (List.suffix_refl _) exits.scope.inside)
      · rcases ih (by omega) (unfailing.before (Nat.le_succ n)) with
          now | ⟨i, r, later, bound, asked, stack⟩
        · rcases now.step exits (by omega) unfailing with next | ⟨r, asked, stack⟩
          · exact .inl next
          · exact .inr ⟨n + 1, r, after, Nat.le_refl _, asked, stack⟩
        · exact .inr ⟨i, r, later, by omega, asked, stack⟩

/-- A frame of the scope that has been there since the exit gives way when it is resumed. -/
theorem Exits.gives_way (exits : H.Exits t below M outer) (after : t < n)
    (unfailing : H.Unfailing t (n + 1)) (frames : (H.stack n).frames = top :: rest)
    (within : outer.length ≤ rest.length)
    (stays : ∀ i, t ≤ i → i ≤ n → rest.length < (H.stack i).depth) :
    rest <:+ below ∧
    H.setting.GivesWay below top rest (H.setting.resume top (H.stack n).previous) ∧
    ∀ g, top = .module g →
      ∃ r, r.isRunning = false ∧ H.stack (n + 1) = ⟨rest, some ⟨.module, .ok r⟩⟩ := by
  have here : rest <:+ below ∧ H.setting.GivesWay below top rest
      (H.setting.resume top (H.stack n).previous) := by
    rcases exiting_or_left exits after (unfailing.before (Nat.le_succ n)) with
      now | ⟨i, r, later, bound, _, stack⟩
    · cases now with
      | facing same gives lower =>
          obtain ⟨rfl, rfl⟩ := List.cons.inj (same.symm.trans frames)
          exact ⟨lower, gives⟩
      | aside same _ _ _ _ opened =>
          obtain ⟨i, later, bound, depth⟩ := opened
          have stood := stays i (by omega) bound
          have height := congrArg List.length (List.cons.inj (same.symm.trans frames)).2
          rw [List.length_append, List.length_cons] at height
          omega
    · have stood := stays i (by omega) bound
      rw [stack, CallStack.depth] at stood
      dsimp only at stood
      omega
  refine ⟨here.1, here.2, ?_⟩
  intro g isModule
  subst isModule
  have clean := unfailing (n + 1) (by omega) (Nat.le_refl _)
  rcases stack_succ_of_gives_way frames here.2 clean with left | ⟨_, _, _, impossible, _⟩
  · exact left
  · cases impossible

theorem Exits.left (exits : H.Exits t below M outer) (after : t < n) (unfailing : H.Unfailing t n)
    (frames : (H.stack n).frames = outer)
    (stays : ∀ i, t ≤ i → i < n → outer.length < (H.stack i).depth) :
    ∃ r, r.isRunning = false ∧ H.stack n = ⟨outer, some ⟨.module, .ok r⟩⟩ := by
  rcases exiting_or_left exits after unfailing with now | ⟨i, r, later, bound, asked, stack⟩
  · cases now with
    | facing same _ _ within =>
        rw [← same, frames] at within
        have bound := within.length_le
        rw [List.length_cons] at bound
        omega
    | aside same _ _ _ within =>
        have bound := within.length_le
        have height := congrArg List.length (frames.symm.trans same)
        simp only [List.length_append, List.length_cons] at bound height
        omega
  · by_cases last : i = n
    · subst i
      exact ⟨r, asked, stack⟩
    · have stood := stays i (by omega) (by omega)
      rw [stack] at stood
      exact absurd stood (Nat.lt_irrefl _)

/-- What stands below the module that an exit leaves goes on as if nothing had asked to stop. -/
theorem Exits.goes_on_below (exits : H.Exits t below M outer) {r : RunResult}
    (stack : H.stack n = ⟨outer, some ⟨.module, .ok r⟩⟩) :
    outer = [] ∨
    (∃ a rest, outer = .action a :: rest ∧
      H.stack (n + 1) = ⟨rest, some ⟨.action, .ok { r with status := .running }⟩⟩) ∨
    ∃ main rest, outer = List.replicate 3 .hole ++ .module main :: rest ∧
      main.activation.isMain = true ∧ main.activation.result.status = .running ∧
      (H.stack (n + 3)).frames = .module main :: rest ∧
      (H.stack (n + 3)).result? = some (.ok r) ∧
      (∀ kind, H.setting.resume (.module main) (some ⟨kind, .ok r⟩) =
        H.setting.resume (.module main) (some ⟨kind, .ok { r with status := .running }⟩)) ∧
      ∀ later children,
        H.Resumes (n + 3) (.module main) rest (.module later) (.yield children) →
        later.activation.result.status = .running := by
  obtain ⟨x, nested, _⟩ := exits.performs
  have standing := (nested.split Frame.noConfusion
    (exits.scope.inside.trans (List.suffix_cons _ _))).1
  rcases standing.below_exited exits.scope.ends with
    empty | ⟨a, rest, shape, called⟩ | ⟨main, rest, shape, active, isMain, awaiting⟩
  · exact .inl empty
  · subst shape
    refine .inr (.inl ⟨a, rest, rfl, ?_⟩)
    have resumes : H.Resumes n (.action a) rest (.action a) (.done (r.ofCall false)) := by
      refine ⟨by rw [stack], ?_⟩
      rw [stack, H.setting.resume_called called]
      rfl
    exact resumes.stack_succ
  · subst shape
    have arrived := handed_on stack 3 (Nat.le_refl 3)
    refine .inr (.inr ⟨main, rest, rfl, isMain, eq_of_beq active.running, arrived.1, arrived.2,
      fun kind => H.setting.resume_after_events awaiting kind r, ?_⟩)
    intro later children resumes
    have still : later.activation.Active := by
      have proper := resumes.proper.2
      cases proper with
      | idle active => exact active
      | push awaits =>
          cases awaits with
          | rule active => exact active
          | ownCombo active => exact active
          | events active => exact active
    exact eq_of_beq still.running

theorem exits_of_action {S : Setting σ ω} {f : ModuleFrame} (fresh : f.Fresh)
    {situation : Situation σ ω} {x : ActionFrame}
    (frames : ((ofModule S f situation).stack t).frames = .action x :: below)
    (exits : x.action = .mental .exit) (scope : ExitScope below M outer) :
    (ofModule S f situation).Exits t below M outer := by
  have routed := ofModule_routed S fresh situation
  obtain ⟨nested, called, vacant⟩ := (routed t).before_exit frames exits
  have resumes : (ofModule S f situation).Resumes t (.action x) below (.action x)
      (.done { RunResult.action with status := .softStop }) := by
    refine ⟨frames, ?_⟩
    rw [vacant]
    exact Setting.resume_exit _ exits called _
  exact ⟨routed, ⟨x, nested, exits⟩, resumes.stack_succ, scope⟩

/-- The scope of an exit. There is a module `M` that it leaves. From then on, each frame down to
`M` gives way when it is resumed, and each module leaves. What stands below `M` is not stopped:
the action that called it reports that it is running, and a main module keeps its status after an
event pass. -/
theorem exit_scope (S : Setting σ ω) {f : ModuleFrame} (fresh : f.Fresh)
    (situation : Situation σ ω) {t : Nat} {x : ActionFrame} {below : List Frame}
    (frames : ((ofModule S f situation).stack t).frames = .action x :: below)
    (exits : x.action = .mental .exit) :
    let H := ofModule S f situation
    H.stack (t + 1) = ⟨below, some ⟨.action, .ok { RunResult.action with status := .softStop }⟩⟩ ∧
    (∃ M outer, ExitScope below M outer) ∧
    ∀ M outer, ExitScope below M outer →
      (∀ n top rest, t < n → H.Unfailing t (n + 1) → (H.stack n).frames = top :: rest →
        outer.length ≤ rest.length → (∀ i, t ≤ i → i ≤ n → rest.length < (H.stack i).depth) →
        rest <:+ below ∧ S.GivesWay below top rest (S.resume top (H.stack n).previous) ∧
        ∀ g, top = .module g →
          ∃ r, r.isRunning = false ∧ H.stack (n + 1) = ⟨rest, some ⟨.module, .ok r⟩⟩) ∧
      (∀ n, t < n → H.Unfailing t n → (H.stack n).frames = outer →
        (∀ i, t ≤ i → i < n → outer.length < (H.stack i).depth) →
        ∃ r, r.isRunning = false ∧ H.stack n = ⟨outer, some ⟨.module, .ok r⟩⟩ ∧
          (outer = [] ∨
          (∃ a rest, outer = .action a :: rest ∧
            H.stack (n + 1) = ⟨rest, some ⟨.action, .ok { r with status := .running }⟩⟩) ∨
          ∃ main rest, outer = List.replicate 3 .hole ++ .module main :: rest ∧
            main.activation.isMain = true ∧ main.activation.result.status = .running ∧
            (H.stack (n + 3)).frames = .module main :: rest ∧
            (H.stack (n + 3)).result? = some (.ok r) ∧
            (∀ kind, S.resume (.module main) (some ⟨kind, .ok r⟩) =
              S.resume (.module main) (some ⟨kind, .ok { r with status := .running }⟩)) ∧
            ∀ later children,
              H.Resumes (n + 3) (.module main) rest (.module later) (.yield children) →
              later.activation.result.status = .running)) := by
  intro H
  have nested := ((ofModule_routed S fresh situation t).before_exit frames exits).1
  refine ⟨?_, nested.exists_exitScope, ?_⟩
  · obtain ⟨M, outer, scope⟩ := nested.exists_exitScope
    exact (exits_of_action fresh frames exits scope).performed
  · intro M outer scope
    have leaving : H.Exits t below M outer := exits_of_action fresh frames exits scope
    refine ⟨?_, ?_⟩
    · intro n top rest after unfailing frames within stays
      exact leaving.gives_way after unfailing frames within stays
    · intro n after unfailing frames stays
      obtain ⟨r, asked, stack⟩ := leaving.left after unfailing frames stays
      exact ⟨r, asked, stack, leaving.goes_on_below stack⟩

def task : Module :=
  { Module.ofName "task" with
    rules := [.ofKind .ifThen .always
      [.nested (.unnamed "part" [.ofKind .ifThen .always [.exitModule]]), .perform "act" []]] }

def caller : ModuleFrame :=
  .start { Module.ofName "caller" with
    rules := [.ofKind .ifThen .always [.callNamed "task" []]] } .empty none none

def leaving : History Simulation.World Simulation.Trace :=
  ofModule (Simulation.setting ⟨[task], none, none, none, none⟩ .linear false) caller
    (Simulation.situation {} ⟨Vector.replicate 8 0, 0⟩)

/-- An exit on top, in an anonymous module called by the task, which stands on `depth` frames. -/
def exitsInPart (depth : Nat) : List Frame → Bool
  | .action ⟨.mental .exit, _, _, _, _⟩ :: .combo _ :: .rule _ :: .module g :: .action _ ::
      .combo _ :: .rule _ :: .module M :: .action _ :: rest =>
    (g.activation.module.anonymous && !M.activation.module.anonymous) &&
      (M.activation.module.name == "task" && rest.length + 1 == depth)
  | _ => false

private theorem exitScope_of_part {depth : Nat} {frames : List Frame}
    (shape : exitsInPart depth frames = true) :
    ∃ x below M outer, frames = .action x :: below ∧ x.action = .mental .exit ∧
      ExitScope below M outer ∧ M.activation.module.name = "task" ∧
      outer.length = depth ∧ ∃ a rest, outer = .action a :: rest := by
  unfold exitsInPart at shape
  split at shape
  · rename_i c r g a c' r' M b rest
    simp only [Bool.and_eq_true, beq_iff_eq, Bool.not_eq_true'] at shape
    obtain ⟨⟨anonymous, named⟩, isTask, height⟩ := shape
    have ends : M.endsExit (.action b :: rest) = true := by
      simp only [ModuleFrame.endsExit, named, Bool.not_false]
    have passes (h : ModuleFrame) (same : Frame.module g = .module h) :
        h.endsExit (.action a :: .combo c' :: .rule r' :: .module M :: .action b :: rest) =
          false := by
      cases same
      simp only [ModuleFrame.endsExit, anonymous, Bool.not_true]
    have outside := (ExitScope.here M _ ends).further (.rule r') fun _ => Frame.noConfusion
    have around := outside.further (.combo c') fun _ => Frame.noConfusion
    have inside := around.further (.action a) fun _ => Frame.noConfusion
    have called := inside.further (.module g) passes
    have within := called.further (.rule r) fun _ => Frame.noConfusion
    exact ⟨_, _, M, _, rfl, rfl, within.further (.combo c) fun _ => Frame.noConfusion, isTask,
      height, b, rest, rfl⟩
  · cases shape

/-- The exit leaves the part and the task, but not the caller. -/
theorem exit_scope_of_part :
    ∃ x below M outer, (leaving.stack 11).frames = .action x :: below ∧
      x.action = .mental .exit ∧ ExitScope below M outer ∧
      M.activation.module.name = "task" ∧
      (∃ r, r.isRunning = false ∧ leaving.stack 21 = ⟨outer, some ⟨.module, .ok r⟩⟩) ∧
      ∃ (a : ActionFrame) (rest : List Frame) (r : RunResult), outer = .action a :: rest ∧
        leaving.stack 22 = ⟨rest, some ⟨.action, .ok { r with status := .running }⟩⟩ := by
  have shape : exitsInPart 4 (leaving.stack 11).frames = true := by decide +kernel
  obtain ⟨x, below, M, outer, frames, exits, scope, isTask, height, b, rest, called⟩ :=
    exitScope_of_part shape
  have clean : leaving.Unfailing 11 21 := by
    have all : ∀ i, i < 22 → (leaving.stack i).failed = false := by decide +kernel
    intro i _ bound
    exact all i (by omega)
  have deep : ∀ i, i < 21 → 11 ≤ i → 4 < (leaving.stack i).depth := by decide +kernel
  have last : ∃ g lower, (leaving.stack 20).frames = .module g :: lower ∧ lower.length = 4 := by
    have kinds : (leaving.stack 20).frames.map Frame.kind =
        [.module, .action, .combo, .rule, .module] := by decide +kernel
    generalize (leaving.stack 20).frames = frames at kinds
    obtain ⟨top, lower, rfl, isModule, others⟩ := List.map_eq_cons_iff.mp kinds
    have height := congrArg List.length others
    rw [List.length_map] at height
    cases top with
    | module g => exact ⟨g, lower, rfl, height⟩
    | rule g | combo g | action g | hole => cases isModule
  obtain ⟨g, lower, before, four⟩ := last
  have fresh : caller.Fresh := .start _ _ _ _
  obtain ⟨within, outside⟩ := (exit_scope _ fresh _ frames exits).2.2 M _ scope
  obtain ⟨inside, _, leaves⟩ := within 20 (.module g) lower (by omega) clean before (by omega)
    (fun i later bound => by rw [four]; exact deep i (by omega) later)
  obtain ⟨_, _, left⟩ := leaves g rfl
  have same : lower = outer :=
    List.IsSuffix.eq_of_length
      (List.suffix_of_suffix_length_le inside ((List.suffix_cons _ _).trans scope.inside)
        (by omega)) (by omega)
  obtain ⟨result, asked, stack, goesOn⟩ := outside 21 (by omega) clean
    (by rw [← same]; exact congrArg CallStack.frames left)
    (fun i later bound => by rw [height]; exact deep i bound later)
  refine ⟨x, below, M, outer, frames, exits, scope, isTask, ⟨result, asked, stack⟩, ?_⟩
  subst called
  rcases goesOn with empty | ⟨a, rest, shape, next⟩ | ⟨main, rest, shape, _⟩
  · cases empty
  · exact ⟨a, rest, result, shape, next⟩
  · cases (List.cons.inj shape).1

end History

end CognitiveAgent
