import CognitiveAgent.Proofs.Alterations
import CognitiveAgent.Proofs.OwnTurns
import CognitiveAgent.Proofs.Phases

/-!
Brackets around modules. The calls by which modules enter and leave their focus are well nested:
what is open at any time are the focuses of the prepared modules on the stack. And a module
furnishes the mental state in its first turn, before anything else is asked, and never again.
-/

set_option autoImplicit false

namespace CognitiveAgent

variable {σ ω : Type}

inductive FocusCall where
  | enter (module : String)
  | exit (module : String)
deriving DecidableEq

/-- Well-nested calls: what is entered is left again under the same name, and what is entered in
between is left before. -/
inductive Balanced : List FocusCall → Prop where
  | nil : Balanced []
  | wrap {module : String} {within rest : List FocusCall} (inner : Balanced within)
      (after : Balanced rest) : Balanced (.enter module :: (within ++ .exit module :: rest))

/-! ### Reading calls from left to right -/

/-- The names that are open after the calls, the latest first, given those that are open before.
There are none if a call leaves what has not been entered last. -/
def unclosed : List String → List FocusCall → Option (List String)
  | names, [] => some names
  | names, .enter name :: rest => unclosed (name :: names) rest
  | [], .exit _ :: _ => none
  | last :: names, .exit name :: rest => if last = name then unclosed names rest else none

private theorem unclosed_append (names : List String) (calls more : List FocusCall) :
    unclosed names (calls ++ more) = (unclosed names calls).bind (unclosed · more) := by
  induction calls generalizing names with
  | nil => rfl
  | cons call rest ih =>
      cases call with
      | enter name => exact ih (name :: names)
      | exit name =>
          cases names with
          | nil => rfl
          | cons last names =>
              by_cases same : last = name
              · simp only [List.cons_append, unclosed, if_pos same]
                exact ih names
              · simp only [List.cons_append, unclosed, if_neg same]
                rfl

inductive LeavesAll : List String → List FocusCall → Prop where
  | none {calls : List FocusCall} (balanced : Balanced calls) : LeavesAll [] calls
  | next {name : String} {names : List String} {calls rest : List FocusCall}
      (balanced : Balanced calls) (others : LeavesAll names rest) :
      LeavesAll (name :: names) (calls ++ .exit name :: rest)

private theorem leavesAll_of_unclosed {names : List String} {calls : List FocusCall}
    (closed : unclosed names calls = some []) : LeavesAll names calls := by
  -- A name that is entered joins those that the rest of the calls leaves, and comes first of them.
  induction calls generalizing names with
  | nil =>
      cases Option.some.inj closed
      exact .none .nil
  | cons call rest ih =>
      cases call with
      | enter name =>
          have later : LeavesAll (name :: names) rest := ih closed
          cases later with
          | @next _ _ inner after balanced others =>
              cases others with
              | none outer => exact .none (.wrap balanced outer)
              | @next last names calls further outer others =>
                  have whole : LeavesAll (last :: names)
                      ((.enter name :: (inner ++ .exit name :: calls)) ++ .exit last :: further) :=
                    .next (.wrap balanced outer) others
                  rw [List.cons_append, List.append_assoc, List.cons_append] at whole
                  exact whole
      | exit name =>
          cases names with
          | nil => cases closed
          | cons last names =>
              by_cases same : last = name
              · subst same
                simp only [unclosed, if_true] at closed
                have whole : LeavesAll (last :: names) ([] ++ .exit last :: rest) :=
                  .next .nil (ih closed)
                exact whole
              · simp only [unclosed, if_neg same] at closed
                cases closed

private theorem balanced_of_unclosed {calls : List FocusCall}
    (closed : unclosed [] calls = some []) :
    Balanced calls := by
  cases leavesAll_of_unclosed closed with
  | none balanced => exact balanced

private theorem exists_balanced {names : List String} {calls : List FocusCall}
    (opened : unclosed [] calls = some names) : ∃ rest, Balanced (calls ++ rest) := by
  have leaving (names : List String) : unclosed names (names.map .exit) = some [] := by
    induction names with
    | nil => rfl
    | cons name names ih =>
        simp only [List.map_cons, unclosed, if_true]
        exact ih
  refine ⟨names.map .exit, balanced_of_unclosed ?_⟩
  rw [unclosed_append, opened]
  exact leaving names

/-! ### The calls of a turn -/

def Request.focusCall? : Request → Option FocusCall
  | .enterFocus name _ _ => some (.enter name)
  | .exitFocus name => some (.exit name)
  | .evaluate .. | .insert _ | .delete _ | .adopt _ | .drop _ | .hasGoals | .perform _ | .reward
  | .choose .. | .learn .. | .plan .. | .stopSignal => none

def focusCalls (seen : List Occurrence) : List FocusCall :=
  (requests seen).filterMap Request.focusCall?

private theorem focusCalls_append (seen more : List Occurrence) :
    focusCalls (seen ++ more) = focusCalls seen ++ focusCalls more := by
  simp [focusCalls]

private theorem focusCalls_alterations (seen : List Occurrence) :
    focusCalls seen = (alterations seen).filterMap Request.focusCall? := by
  rw [focusCalls, alterations, List.filterMap_filter]
  refine congrArg (fun read => (requests seen).filterMap read) (funext fun request => ?_)
  cases request <;> rfl

def Module.focusNames (m : Module) : List String := if m.focus = .none then [] else [m.name]

private theorem Module.focusCalls_closing (m : Module) :
    m.closing.filterMap Request.focusCall? = m.focusNames.map .exit := by
  unfold closing focusNames
  split <;> rfl

private theorem Activation.focusCalls_furnishing (a : Activation) :
    a.furnishing.filterMap Request.focusCall? = a.module.focusNames.map .enter := by
  have beliefs : (a.module.beliefs.map fun belief =>
      Request.insert (belief.apply a.substitution)).filterMap Request.focusCall? = [] := by
    simp [List.filterMap_map, Function.comp_def, Request.focusCall?]
  have goals : (a.module.goals.map fun goal =>
      Request.adopt (goal.apply a.substitution)).filterMap Request.focusCall? = [] := by
    simp [List.filterMap_map, Function.comp_def, Request.focusCall?]
  unfold furnishing Module.focusNames
  rw [List.filterMap_append, List.filterMap_append, beliefs, goals]
  split <;> rfl

def Frame.focused : Frame → List String
  | .module g => if g.activation.prepared then g.activation.module.focusNames else []
  | .rule _ | .combo _ | .action _ | .hole => []

def openFocuses (frames : List Frame) : List String := frames.flatMap Frame.focused

private theorem Frame.focused_of_fresh {f : Frame} (fresh : f.origin = f) : f.focused = [] := by
  rw [← fresh]
  cases f <;> rfl

private theorem openFocuses_append (upper lower : List Frame) :
    openFocuses (upper ++ lower) = openFocuses upper ++ openFocuses lower := List.flatMap_append

private theorem openFocuses_holes (holes : Nat) : openFocuses (List.replicate holes .hole) =
    [] := by
  simp [openFocuses, Frame.focused]

private theorem unclosed_enter (m : Module) (names : List String) :
    unclosed names (m.focusNames.map .enter) = some (m.focusNames ++ names) := by
  unfold Module.focusNames
  split <;> rfl

private theorem unclosed_exit (m : Module) (names : List String) :
    unclosed (m.focusNames ++ names) (m.focusNames.map .exit) = some names := by
  unfold Module.focusNames
  split
  · rfl
  · exact if_pos rfl

namespace Setting

private theorem ActionAsks.focusCalls {x : ActionFrame} {outcome : Outcome} {asked : List Request}
    (asks : ActionAsks x outcome asked) : asked.filterMap Request.focusCall? = [] := by
  rw [List.filterMap_eq_nil_iff]
  intro request member
  cases asks with
  | nothing => cases member
  | @update action request _ _ asked =>
      rw [List.mem_singleton.mp member]
      generalize action.apply x.substitution = action at asked
      cases action with
      | insert | delete | adopt | drop =>
          cases asked
          rfl
      | exit | log => cases asked
  | effects _ _ begun =>
      obtain ⟨effect, _, rfl⟩ := List.mem_map.mp (begun.subset member)
      cases effect <;> rfl

/-- A module enters its focus when it was not prepared before, and leaves it when it is done. -/
theorem ModuleAsks.unclosed {g : ModuleFrame} {outcome : Outcome} {seen : List Occurrence}
    (asks : ModuleAsks g outcome seen) (names : List String) :
    match outcome with
    | .yield _ => unclosed ((Frame.module g).focused ++ names) (focusCalls seen) =
        some (g.activation.module.focusNames ++ names)
    | .done _ => unclosed ((Frame.module g).focused ++ names) (focusCalls seen) = some names
    | .failed _ => True := by
  cases asks with
  | refused => trivial
  | @pursues _ entry seen furnished closes =>
      have entered : CognitiveAgent.unclosed ((Frame.module g).focused ++ names)
          (focusCalls entry) = some (g.activation.module.focusNames ++ names) := by
        rw [CognitiveAgent.focusCalls, furnished]
        cases prepared : g.activation.prepared with
        | true =>
            rw [Frame.focused, prepared]
            rfl
        | false =>
            simp only [Frame.focused, prepared, Bool.false_eq_true, if_false, List.nil_append]
            rw [Activation.focusCalls_furnishing, unclosed_enter]
      cases outcome with
      | failed failure => trivial
      | yield children =>
          have nothing : alterations seen = [] := closes
          dsimp only
          rw [focusCalls_append, unclosed_append, entered, focusCalls_alterations seen, nothing]
          rfl
      | done result =>
          have closing : alterations seen = g.activation.module.closing := closes
          dsimp only
          rw [focusCalls_append, unclosed_append, entered, focusCalls_alterations seen, closing,
            Module.focusCalls_closing]
          exact unclosed_exit _ _

end Setting

namespace History

variable {H : History σ ω} {n : Nat} {f later : Frame} {below : List Frame} {outcome : Outcome}

theorem Resumes.asks (resumes : H.Resumes n f below later outcome)
    (clean : (H.stack n).failed = false) : Setting.FrameAsks f outcome (H.occurrences n) := by
  have logs : (H.setting.traced.resume f (H.stack n).previous).Logs fun left seen =>
      Setting.FrameAsks f left.2 seen := by
    rw [Setting.resume_given _ f clean]
    exact H.setting.resumeWith_asks f _
  exact resumes.occurs logs

/-- A module that waits, or has found nothing to do, has been entered. -/
theorem Resumes.prepared {g : ModuleFrame} {children : List Frame}
    (resumes : H.Resumes n f below (.module g) (.yield children)) :
    g.activation.prepared = true := by
  have proper := resumes.proper.2
  generalize shape : Outcome.yield children = outcome at proper
  generalize same : Frame.module g = frame at proper
  cases proper with
  | done | failed => cases shape
  | idle active =>
      cases same
      exact active.prepared
  | push awaits =>
      cases awaits with
      | module | action | combo => cases same
      | rule active | ownCombo active | events active =>
          cases same
          exact active.prepared

private theorem openFocuses_children {S : Setting σ ω} {children : List Frame}
    (proper : S.Proper f (.yield children)) : openFocuses children.reverse = [] := by
  cases proper with
  | idle => rfl
  | push awaits =>
      rw [List.reverse_append, List.reverse_replicate, openFocuses_append, openFocuses_holes,
        List.append_nil]
      simp only [List.reverse_singleton, openFocuses, List.flatMap_singleton]
      exact Frame.focused_of_fresh awaits.child_origin

/-- One turn leads from the focuses that are open to those that are open after it. -/
theorem Resumes.unclosed (resumes : H.Resumes n f below later outcome)
    (clean : (H.stack (n + 1)).failed = false) :
    unclosed (openFocuses (f :: below)) (focusCalls (H.occurrences n)) =
      some (openFocuses (H.stack (n + 1)).frames) := by
  have asks := resumes.asks (unfailed_of_le (Nat.le_succ n) clean)
  have same := resumes.proper.1
  have begins : openFocuses (f :: below) = f.focused ++ openFocuses below := List.flatMap_cons
  rw [resumes.stack_succ] at clean ⊢
  -- Only a module opens or closes a focus, and only its own.
  by_cases isModule : f.kind = .module
  · cases f with
    | rule g | combo c | action x | hole => cases isModule
    | module g =>
        have step := Setting.ModuleAsks.unclosed asks (openFocuses below)
        cases outcome with
        | failed failure => cases clean
        | done result =>
            rw [begins]
            exact step
        | yield children =>
            cases later with
            | rule h | combo c | action x | hole => cases same
            | module h =>
                have sameOrigin : h.origin = g.origin := Frame.module.inj same
                have sameModule : h.activation.module = g.activation.module := by
                  have kept := congrArg (fun k : ModuleFrame => k.activation.module) sameOrigin
                  exact kept
                have focused : (Frame.module h).focused = g.activation.module.focusNames := by
                  rw [Frame.focused, resumes.prepared, if_pos rfl, sameModule]
                have after : openFocuses (children.reverse ++ .module h :: below) =
                    g.activation.module.focusNames ++ openFocuses below := by
                  rw [openFocuses_append, openFocuses_children resumes.proper.2, List.nil_append,
                    openFocuses, List.flatMap_cons, focused]
                  rfl
                rw [begins]
                exact step.trans (congrArg some after.symm)
  · have silent : focusCalls (H.occurrences n) = [] := by
      rw [focusCalls_alterations]
      cases f with
      | module g => exact absurd rfl isModule
      | rule g | combo c | hole => exact congrArg _ asks
      | action x => exact Setting.ActionAsks.focusCalls asks
    have none (g : Frame) (other : g.kind ≠ .module) : g.focused = [] := by
      cases g with
      | module h => exact absurd rfl other
      | rule h | combo c | action x | hole => rfl
    rw [silent, begins, none f isModule]
    cases outcome with
    | failed failure => cases clean
    | done result => rfl
    | yield children =>
        have other : later.kind ≠ .module := by
          rw [Frame.kind_eq_of_origin same]
          exact isModule
        rw [CallStack.settle, openFocuses_append, openFocuses_children resumes.proper.2]
        simp only [List.nil_append, openFocuses, List.flatMap_cons, none later other]
        rfl

def focusCalls (H : History σ ω) (n : Nat) : List FocusCall :=
  (List.range n).flatMap fun i => CognitiveAgent.focusCalls (H.occurrences i)

private theorem focusCalls_succ (n : Nat) :
    H.focusCalls (n + 1) = H.focusCalls n ++ CognitiveAgent.focusCalls (H.occurrences n) := by
  simp [focusCalls, List.range_succ]

private theorem unclosed_succ (clean : (H.stack (n + 1)).failed = false) :
    unclosed (openFocuses (H.stack n).frames) (CognitiveAgent.focusCalls (H.occurrences n)) =
      some (openFocuses (H.stack (n + 1)).frames) := by
  cases frames : (H.stack n).frames with
  | nil =>
      rw [occurrences, Setting.occurrences_of_empty _ frames, stack_succ_of_empty frames, frames]
      rfl
  | cons f below =>
      obtain ⟨later, outcome, resumes⟩ := exists_resumes frames
      exact resumes.unclosed clean

private theorem unclosed_focusCalls (clean : (H.stack n).failed = false) :
    unclosed (openFocuses H.start.frames) (H.focusCalls n) =
      some (openFocuses (H.stack n).frames) := by
  induction n with
  | zero => rfl
  | succ n ih =>
      rw [focusCalls_succ, unclosed_append, ih (unfailed_of_le (Nat.le_succ n) clean)]
      exact unclosed_succ clean

end History

/-! ### Furnishing -/

def Request.furnishes : Request → Bool
  | .enterFocus .. | .insert _ | .adopt _ => true
  | .delete _ | .drop _ | .exitFocus _ | .evaluate .. | .hasGoals | .perform _ | .reward
  | .choose .. | .learn .. | .plan .. | .stopSignal => false

def furnishings (seen : List Occurrence) : List Request :=
  (requests seen).filter Request.furnishes

private theorem furnishings_append (seen more : List Occurrence) :
    furnishings (seen ++ more) = furnishings seen ++ furnishings more := by
  simp [furnishings]

private theorem furnishings_alterations (seen : List Occurrence) :
    furnishings seen = (alterations seen).filter Request.furnishes := by
  rw [furnishings, alterations, List.filter_filter]
  refine congrArg (fun wanted => (requests seen).filter wanted) (funext fun request => ?_)
  cases request <;> rfl

private theorem Activation.furnishing_furnishes (a : Activation) :
    a.furnishing.filter Request.furnishes = a.furnishing := by
  rw [List.filter_eq_self]
  intro request member
  simp only [furnishing, List.mem_append, List.mem_map] at member
  rcases member with (focus | ⟨belief, _, rfl⟩) | ⟨goal, _, rfl⟩
  · split at focus
    · cases focus
    · rw [List.mem_singleton.mp focus]
      rfl
  · rfl
  · rfl

namespace Setting

/-- A module that does not fail furnishes the mental state when it has not been entered before, and
asks for nothing of the kind otherwise. -/
theorem ModuleAsks.furnishes {g : ModuleFrame} {outcome : Outcome} {seen : List Occurrence}
    (asks : ModuleAsks g outcome seen) (unfailed : ∀ failure, outcome ≠ .failed failure) :
    ∃ rest, requests seen =
        (if g.activation.prepared then [] else g.activation.furnishing) ++ rest ∧
      furnishings seen = if g.activation.prepared then [] else g.activation.furnishing := by
  cases asks with
  | @refused failure => exact absurd rfl (unfailed failure)
  | @pursues _ entry seen furnished closes =>
      refine ⟨requests seen, by rw [requests_append, furnished], ?_⟩
      have none : furnishings seen = [] := by
        rw [furnishings_alterations]
        cases outcome with
        | failed failure => exact absurd rfl (unfailed failure)
        | yield children =>
            have nothing : alterations seen = [] := closes
            rw [nothing]
            rfl
        | done result =>
            have closing : alterations seen = g.activation.module.closing := closes
            rw [closing, Module.closing]
            split <;> rfl
      rw [furnishings_append, none, List.append_nil, furnishings, furnished]
      cases g.activation.prepared with
      | true => rfl
      | false => exact g.activation.furnishing_furnishes

end Setting

namespace History

variable {H : History σ ω} {n first : Nat} {below : List Frame} {g : ModuleFrame}

/-- Each module on the stack, and also the one whose turn it is, has furnished the mental state as
the first thing since it was pushed, and has done so once in all its own turns. -/
def Furnishes (H : History σ ω) (n : Nat) : Prop :=
  ∀ g below, (.module g :: below) <:+ (H.stack n).frames →
    ∃ first, H.Lifetime (.module g.origin) below first n ∧
      g.activation.furnishing <+:
        ((List.range' first (n + 1 - first)).flatMap fun i => requests (H.occurrences i)) ∧
      ((H.turns below first (n + 1)).flatMap fun i => furnishings (H.occurrences i)) =
        g.activation.furnishing

theorem Resumes.furnishes {later : Frame} {outcome : Outcome}
    (resumes : H.Resumes n (.module g) below later outcome)
    (clean : (H.stack (n + 1)).failed = false) :
    ∃ rest, requests (H.occurrences n) =
        (if g.activation.prepared then [] else g.activation.furnishing) ++ rest ∧
      furnishings (H.occurrences n) =
        if g.activation.prepared then [] else g.activation.furnishing := by
  have asks := resumes.asks (unfailed_of_le (Nat.le_succ n) clean)
  refine Setting.ModuleAsks.furnishes asks fun failure failed => ?_
  rw [resumes.stack_succ, failed] at clean
  cases clean

section Routed

variable (routed : H.setting.Routed H.start) (vacant : H.start.previous = none)
  (single : H.start.depth ≤ 1)
include routed vacant single

/-- After its first turn a module asks for nothing that would furnish it. -/
theorem Lifetime.later_turn {f : Frame} {i : Nat} (lifetime : H.Lifetime f below first n)
    (isModule : f.kind = .module) (after : first < i) (inside : i ≤ n)
    (own : (H.stack i).depth = below.length + 1) (clean : (H.stack (i + 1)).failed = false) :
    furnishings (H.occurrences i) = [] := by
  have short := lifetime.upTo (Nat.le_of_lt after) inside
  have before := unfailed_of_le (Nat.le_succ i) clean
  obtain ⟨x, frames, same⟩ := short.frames own
  cases x with
  | rule g | combo c | action x | hole =>
      rw [← same] at isModule
      cases isModule
  | module now =>
      rcases short.preceding routed vacant single frames before with rfl | ⟨k, _, _, _, earlier, _⟩
      · exact absurd after (Nat.lt_irrefl _)
      · obtain ⟨later, outcome, resumes⟩ := exists_resumes frames
        obtain ⟨_, _, furnished⟩ := resumes.furnishes clean
        rw [furnished, earlier.prepared]
        rfl

theorem Lifetime.furnishes (lifetime : H.Lifetime (.module g) below first n)
    (clean : (H.stack (n + 1)).failed = false) :
    g.activation.furnishing <+:
        ((List.range' first (n + 1 - first)).flatMap fun i => requests (H.occurrences i)) ∧
      ((H.turns below first (n + 1)).flatMap fun i => furnishings (H.occurrences i)) =
        g.activation.furnishing := by
  have ordered := lifetime.ordered
  have unprepared : g.activation.prepared = false := by
    rw [← Frame.module.inj lifetime.fresh]
    rfl
  obtain ⟨later, outcome, resumes⟩ := exists_resumes lifetime.opens
  obtain ⟨rest, asked, furnished⟩ := resumes.furnishes (unfailed_of_le (by omega) clean)
  simp only [unprepared, Bool.false_eq_true, if_false] at asked furnished
  -- The first turn is split off from the stretch: it furnishes everything, the later ones nothing.
  have stretch : List.range' first (n + 1 - first) =
      first :: List.range' (first + 1) (n - first) := by
    have length : n + 1 - first = n - first + 1 := by omega
    rw [length, List.range'_succ]
  constructor
  · rw [stretch, List.flatMap_cons, asked, List.append_assoc]
    exact List.prefix_append _ _
  · have own : (H.stack first).depth = below.length + 1 := by
      rw [CallStack.depth, lifetime.opens]
      rfl
    have others : ((List.range' (first + 1) (n - first)).filter
        (fun i => (H.stack i).depth == below.length + 1)).flatMap
          (fun i => furnishings (H.occurrences i)) = [] := by
      rw [List.flatMap_eq_nil_iff]
      intro i member
      obtain ⟨range, deep⟩ := List.mem_filter.mp member
      have bounds := List.mem_range'_1.mp range
      exact lifetime.later_turn routed vacant single rfl (by omega) (by omega) (eq_of_beq deep)
        (unfailed_of_le (by omega) clean)
    unfold turns
    rw [stretch, List.filter_cons_of_pos (by simp [own]), List.flatMap_cons, others,
      List.append_nil, furnished]

end Routed

private theorem ofModule_furnishes (S : Setting σ ω) {f : ModuleFrame} (fresh : f.Fresh)
    (situation : Situation σ ω) (clean : ((ofModule S f situation).stack (n + 1)).failed = false) :
    (ofModule S f situation).Furnishes n := by
  intro g below suffix
  have origin : f.origin = f := by cases fresh <;> rfl
  obtain ⟨first, lifetime⟩ := exists_lifetime (H := ofModule S f situation) rfl
    (congrArg Frame.module origin) suffix Frame.noConfusion
  have routed : (ofModule S f situation).setting.Routed (ofModule S f situation).start :=
    .ready (.bottom f) fresh.waits
  have begun : (ofModule S f situation).Lifetime (.module g.origin) below first n := lifetime
  have furnished := Lifetime.furnishes routed rfl (Nat.le_refl 1) begun clean
  exact ⟨first, begun, furnished⟩

end History

/-! ### Agents -/

namespace Life

variable {L : Life σ ω} {n : Nat}

def focusCalls (L : Life σ ω) (n : Nat) : List FocusCall :=
  (List.range n).flatMap fun i => CognitiveAgent.focusCalls (L.occurrences i)

theorem Unfailed.before (unfailed : L.Unfailed (n + 1)) : L.Unfailed n := by
  refine ⟨?_, fun m earlier => unfailed.unreported m (Nat.lt_succ_of_lt earlier)⟩
  cases busy : ((L.agent n).poised L.setting.program).stack.isEmpty with
  | true =>
      obtain ⟨empty, nothing⟩ := Setting.pending_of_unpoised busy
      have clean := unfailed.clean
      rw [agent_succ, Setting.step_finished empty nothing] at clean
      exact clean
  | false =>
      have poised : ((L.agent n).poised L.setting.program).stack.failed = false :=
        History.unfailed_of_le (Nat.zero_le 1) (unfailed.pop busy)
      exact Setting.poised_listed.2.symm.trans poised

private theorem openFocuses_poised :
    openFocuses ((L.agent n).poised L.setting.program).stack.frames =
      openFocuses (L.agent n).stack.frames := by
  cases empty : (L.agent n).stack.isEmpty with
  | false => rw [Setting.poised_of_busy empty]
  | true =>
      rw [Agent.poised, empty, if_pos rfl]
      cases next : (L.agent n).pending L.setting.program with
      | nil => rw [Agent.enterPhase_of_nil next]
      | cons phase rest =>
          obtain ⟨frame, opens, enters, _⟩ := Agent.enterPhase_of_cons next
          have fresh : (Frame.module frame).origin = .module frame := by
            cases Program.opening_fresh opens <;> rfl
          rw [enters, CallStack.push, openFocuses, List.flatMap_cons, Frame.focused_of_fresh fresh]
          rfl

private theorem unclosed_succ (unfailed : L.Unfailed (n + 1)) :
    unclosed (openFocuses (L.agent n).stack.frames)
        (CognitiveAgent.focusCalls (L.occurrences n)) =
      some (openFocuses (L.agent (n + 1)).stack.frames) := by
  rw [agent_succ]
  cases busy : ((L.agent n).poised L.setting.program).stack.isEmpty with
  | true =>
      obtain ⟨empty, nothing⟩ := Setting.pending_of_unpoised busy
      rw [occurrences_of_idle busy, Setting.step_finished empty nothing]
      rfl
  | false =>
      have step := History.unclosed_succ (unfailed.pop busy)
      rw [← occurrences_pop] at step
      rw [← openFocuses_poised]
      refine step.trans (congrArg some ?_)
      cases left : (L.setting.popped (L.agent n) (L.situation n)).stack.isEmpty with
      | false =>
          rw [Setting.step_goes_on busy left]
          rfl
      | true =>
          have emptied : ((L.pop n).stack 1).frames = [] := List.isEmpty_iff.mp left
          rw [Setting.step_closes busy left, Setting.closePhase_stack left, emptied]
          rfl

private theorem unclosed_focusCalls (start : L.start = .start) (unfailed : L.Unfailed n) :
    unclosed [] (L.focusCalls n) = some (openFocuses (L.agent n).stack.frames) := by
  induction n with
  | zero =>
      change some [] = some (openFocuses L.start.stack.frames)
      rw [start]
      rfl
  | succ n ih =>
      have split : L.focusCalls (n + 1) =
          L.focusCalls n ++ CognitiveAgent.focusCalls (L.occurrences n) := by
        simp [focusCalls, List.range_succ]
      rw [split, unclosed_append, ih unfailed.before]
      exact unclosed_succ unfailed

end Life

/-- As long as nothing fails, in the history of any fresh module and in the life of any agent: the
calls by which focuses are entered and left can be completed to well-nested ones, and are well
nested when the stack is empty; and each module furnishes the mental state once, before anything
else is asked on its behalf. Each pop of an agent is one of the history of a fresh module. -/
theorem focus_brackets (S : Setting σ ω) (situation : Situation σ ω) (n : Nat) :
    (∀ f : ModuleFrame, f.Fresh →
      let H := History.ofModule S f situation
      ((H.stack n).failed = false → (∃ rest, Balanced (H.focusCalls n ++ rest)) ∧
        ((H.stack n).frames = [] → Balanced (H.focusCalls n))) ∧
      ((H.stack (n + 1)).failed = false → H.Furnishes n)) ∧
    let L : Life σ ω := ⟨S, .start, situation⟩
    (L.Unfailed n → (∃ rest, Balanced (L.focusCalls n ++ rest)) ∧
      ((L.agent n).stack.frames = [] → Balanced (L.focusCalls n))) ∧
    (L.Unfailed (n + 1) → ((L.agent n).poised S.program).stack.isEmpty = false →
      ∃ m f, L.Spans m f n ∧ (History.ofModule S f (L.situation m)).Furnishes (n - m)) := by
  constructor
  · intro f fresh H
    refine ⟨fun clean => ?_, fun clean => History.ofModule_furnishes S fresh situation clean⟩
    have vacant : openFocuses H.start.frames = [] := by cases fresh <;> rfl
    have opened := History.unclosed_focusCalls clean
    rw [vacant] at opened
    refine ⟨exists_balanced opened, fun empty => balanced_of_unclosed ?_⟩
    rw [opened, empty]
    rfl
  · intro L
    refine ⟨fun unfailed => ?_, fun unfailed busy => ?_⟩
    · have opened := Life.unclosed_focusCalls (L := L) rfl unfailed
      refine ⟨exists_balanced opened, fun empty => balanced_of_unclosed ?_⟩
      rw [opened, empty]
      rfl
    · obtain ⟨m, f, spans⟩ := Life.exists_spans (L := L) rfl busy
      exact ⟨m, f, spans, History.ofModule_furnishes S spans.fresh _ (spans.unfailed unfailed busy)⟩

def reaching : Module :=
  let done : Term := .atom "done"
  { Module.ofName "reach" with
    parameters := [.var "X"], focus := .new, exit := .noAction
    beliefs := [.compound "near" [.var "X"]], goals := [.compound "at" [.var "X"]]
    rules := [.ofKind .ifThen ⟨[{ positive := false, attitude := .belief, formula := done }]⟩
      [.insert done]] }

def roaming : Module :=
  { Module.ofName "roam" with
    focus := .filter, goals := [.atom "rest"]
    rules := [.ofKind .ifThen .always [.callNamed "reach" [.atom "home"]]] }

def roam : History Simulation.World Simulation.Trace :=
  .ofModule (Simulation.setting ⟨[reaching], none, some roaming, none, none⟩ .linear false)
    (.startMain roaming) (Simulation.situation {} ⟨Vector.replicate 8 0, 0⟩)

def roamer : Life Simulation.World Simulation.Trace := ⟨roam.setting, .start, roam.initial⟩

private theorem roamer_unfailed : roamer.Unfailed 17 :=
  Life.unfailed_of_reports (by decide +kernel) (by decide +kernel)

/-- The called module takes its third turn after twelve pops. It has furnished the mental state
in its first one, by its focus, its belief and its goal. -/
theorem focus_brackets_of_roam :
    (ModuleFrame.startMain roaming).Fresh ∧ (roam.stack 13).failed = false ∧
    roam.focusCalls 13 = [.enter "roam", .enter "reach", .exit "reach"] ∧
    (∃ rest, Balanced (roam.focusCalls 13 ++ rest)) ∧
    (roam.stack 17).frames = [] ∧ Balanced (roam.focusCalls 17) ∧
    (∃ g below first, (.module g :: below) <:+ (roam.stack 12).frames ∧ below.length = 4 ∧
      roam.Lifetime (.module g.origin) below first 12 ∧ g.activation.furnishing.length = 3 ∧
      ((roam.turns below first 13).flatMap fun i => furnishings (roam.occurrences i)) =
        g.activation.furnishing) ∧
    roamer.Unfailed 17 ∧ Balanced (roamer.focusCalls 17) ∧
    ∃ m f, roamer.Spans m f 16 ∧
      (History.ofModule roam.setting f (roamer.situation m)).Furnishes (16 - m) := by
  have fresh : (ModuleFrame.startMain roaming).Fresh := .startMain _
  have history (n : Nat) :
      ((roam.stack n).failed = false → (∃ rest, Balanced (roam.focusCalls n ++ rest)) ∧
        ((roam.stack n).frames = [] → Balanced (roam.focusCalls n))) ∧
      ((roam.stack (n + 1)).failed = false → roam.Furnishes n) :=
    (focus_brackets roam.setting roam.initial n).1 _ fresh
  have life (n : Nat) :
      (roamer.Unfailed n → (∃ rest, Balanced (roamer.focusCalls n ++ rest)) ∧
        ((roamer.agent n).stack.frames = [] → Balanced (roamer.focusCalls n))) ∧
      (roamer.Unfailed (n + 1) →
        ((roamer.agent n).poised roam.setting.program).stack.isEmpty = false →
        ∃ m f, roamer.Spans m f n ∧
          (History.ofModule roam.setting f (roamer.situation m)).Furnishes (n - m)) :=
    (focus_brackets roam.setting roam.initial n).2
  have midway : (roam.stack 13).failed = false := by decide +kernel
  have calls : roam.focusCalls 13 = [.enter "roam", .enter "reach", .exit "reach"] := by
    decide +kernel
  have final : (roam.stack 17).failed = false := by decide +kernel
  have empty : (roam.stack 17).frames = [] := by
    have none : (roam.stack 17).frames.isEmpty = true := by decide +kernel
    exact List.isEmpty_iff.mp none
  have gone : (roamer.agent 17).stack.frames = [] := by
    have none : (roamer.agent 17).stack.frames.isEmpty = true := by decide +kernel
    exact List.isEmpty_iff.mp none
  refine ⟨fresh, midway, calls, ((history 13).1 midway).1, empty, ((history 17).1 final).2 empty, ?_,
    roamer_unfailed, ((life 17).1 roamer_unfailed).2 gone,
    (life 16).2 roamer_unfailed (by decide +kernel)⟩
  have depth : (roam.stack 12).frames.tail.length = 4 := by decide +kernel
  have kind : (roam.stack 12).frames.head?.map Frame.kind = some .module := by decide +kernel
  have asked : (roam.stack 12).innermost?.map (·.activation.furnishing.length) = some 3 := by
    decide +kernel
  unfold CallStack.innermost? at asked
  cases frames : (roam.stack 12).frames with
  | nil => rw [frames] at kind; cases kind
  | cons f below =>
      rw [frames] at depth kind asked
      cases f with
      | rule g | combo c | action x | hole => cases kind
      | module g =>
          obtain ⟨first, lifetime, _, once⟩ := (history 12).2 midway g below ⟨[], frames.symm⟩
          exact ⟨g, below, first, List.suffix_refl _, depth, lifetime, Option.some.inj asked, once⟩

end CognitiveAgent
