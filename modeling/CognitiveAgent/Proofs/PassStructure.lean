import CognitiveAgent.Proofs.OwnTurns
import CognitiveAgent.Proofs.PassLedger

/-!
The passes of a module that tries its rules in order, in a history without failures. Each turn of
the module is one move by its ledger, and between two turns the children run that the first of
them has pushed. Main statement: the ledger accounts for all the rules that the module has tried
and for all the times that it has judged its exit condition, and its passes are in order.
-/

set_option autoImplicit false

namespace CognitiveAgent

variable {σ ω : Type}

namespace History

variable {H : History σ ω} {a : Activation} {l : Ledger} {below : List Frame} {first k m n : Nat}
variable {children : List Frame} {previous : Option RunResult} {outcome : Outcome}

def Moves (H : History σ ω) (a : Activation) (below : List Frame) (n : Nat) (l : Ledger)
    (outcome : Outcome) (after : Ledger) : Prop :=
  ∃ now later, H.Resumes n (.module now) below (.module later) outcome ∧
    H.setting.PassMove a (H.mustStop n (.module now)) (goalAnswers (H.occurrences n)) l outcome
      after

def Tracks (H : History σ ω) (a : Activation) (l : Ledger) (n : Nat) (now : ModuleFrame) : Prop :=
  ∃ state, now.strategy = .passes state ∧
    a.Tracks l state (state.absorb (H.setting.present now) (H.stack n).given)

private theorem taken_passes {now : ModuleFrame} {state : PassState}
    (passes : now.strategy = .passes state) :
    H.taken n (.module now) =
      (state.absorb (H.setting.present now) (H.stack n).given).1.result := by
  rw [taken_present, passes]
  rfl

/-- A turn is a move, and the next turn, if there is one, finds the ledger in order again. -/
theorem Resumes.moves {now : ModuleFrame} {later : Frame}
    (resumes : H.Resumes n (.module now) below later outcome)
    (tracks : H.Tracks a l n now) (prepared : a.prepared = true)
    (clean : (H.stack (n + 1)).failed = false) :
    ∃ after, H.Moves a below n l outcome after ∧
      ∀ children, outcome = .yield children → ∀ g, later = .module g →
        ∀ m, ((H.stack m).given = none ↔ children = []) →
          H.Tracks a (after.hear children (H.stack m).given) m g := by
  obtain ⟨state, passes, tracks⟩ := tracks
  have logs : (H.setting.traced.resume (.module now) (H.stack n).previous).Logs fun left seen =>
      (∃ failure, left.2 = .failed failure) ∨
      ∃ entry rest activation later, seen = entry ++ rest ∧ (∀ o ∈ entry, o.Quiet) ∧
        left.1 = .module ⟨activation, .passes later⟩ ∧
        H.setting.PassTurn (state.absorb (H.setting.present now) (H.stack n).given).1
          { state with awaiting := .nothing }
          (state.absorb (H.setting.present now) (H.stack n).given).2
          (activation, later, left.2) rest := by
    rw [Setting.resume_given _ _ (unfailed_of_le (Nat.le_succ n) clean)]
    refine (H.setting.resumeModule_turns passes _).bind fun left seen turns => ?_
    refine Exec.logs_pure ?_
    rw [List.append_nil]
    rcases turns with failed | ⟨entry, rest, activation, later, noted, quiet, same, turn⟩
    · exact .inl failed
    · exact .inr ⟨entry, rest, activation, later, noted, quiet, congrArg Frame.module same, turn⟩
  have lives : ∀ failure, outcome ≠ .failed failure := by
    rintro failure rfl
    rw [resumes.stack_succ] at clean
    cases clean
  rcases resumes.occurs logs with ⟨failure, failed⟩ |
    ⟨entry, rest, activation, strategy, noted, quiet, same, turn⟩
  · exact absurd failed (lives failure)
  · change later = _ at same
    subst same
    obtain ⟨after, move, continues⟩ := turn.moves tracks lives
    refine ⟨after, ⟨now, _, resumes, ?_⟩, ?_⟩
    · rw [mustStop, taken_passes passes, noted, polls_append, goalAnswers_append,
        goalAnswers_of_quiet quiet, polls_of_silent fun o member => (quiet o member).toSilent]
      exact move
    · intro children yields g same m heard
      cases same
      have goesOn := continues children yields
      refine ⟨strategy, rfl, ?_⟩
      rw [Setting.present, if_pos (goesOn.prepared.trans prepared)]
      exact goesOn.tracks _ heard

/-! ### The run of a module -/

/-- What a module has tried before turn `n`: the ledger is empty in its first turn, and each turn
moves it on. -/
inductive PassRun (H : History σ ω) (a : Activation) (below : List Frame) (first : Nat) :
    Nat → Ledger → Prop where
  | enters : H.PassRun a below first first {}
  | goesOn {k n : Nat} {l after : Ledger} {children : List Frame} {previous : Option RunResult}
      (before : H.PassRun a below first k l) (move : H.Moves a below k l (.yield children) after)
      (runs : H.Runs below k children previous n) :
      H.PassRun a below first n (after.hear children previous)

private theorem Lifetime.tracks_first {g : ModuleFrame}
    (lifetime : H.Lifetime (.module g) below first n)
    (linear : g.activation.module.strategy = .linear)
    (routed : H.setting.Routed (H.stack first)) :
    H.Tracks (H.setting.entered g.activation) {} first g := by
  obtain ⟨fresh, strategy, vacant⟩ := lifetime.opening routed
  rw [linear] at strategy
  refine ⟨{}, strategy, ?_⟩
  rw [vacant, ← fresh]
  exact ⟨⟨_, rfl⟩, .inl ⟨rfl, rfl⟩, rfl⟩

/-- Every turn of the module in a history without failures finds the ledger in order. -/
theorem Lifetime.exists_passRun {g now : ModuleFrame} (start : H.setting.Routed H.start)
    (vacant : H.start.previous = none) (single : H.start.depth ≤ 1)
    (linear : g.activation.module.strategy = .linear)
    (lifetime : H.Lifetime (.module g) below first n)
    (frames : (H.stack n).frames = .module now :: below) (clean : (H.stack n).failed = false) :
    ∃ l, H.PassRun (H.setting.entered g.activation) below first n l ∧
      H.Tracks (H.setting.entered g.activation) l n now := by
  -- Each turn but the first follows another one, so the induction goes back from turn to turn.
  induction n using Nat.strongRecOn generalizing now with
  | ind n ih =>
      rcases lifetime.preceding start vacant single frames clean with
        rfl | ⟨k, before, children, after, resumes, runs⟩
      · have same := lifetime.opens.symm.trans frames
        cases (List.cons.inj same).1
        exact ⟨{}, .enters, lifetime.tracks_first linear (stack_routed start n)⟩
      · have later := runs.later
        obtain ⟨old, rfl⟩ : ∃ old, before = .module old := by
          have same := resumes.proper.1
          cases before with
          | module old => exact ⟨old, rfl⟩
          | rule g | combo c | action x | hole => cases same
        obtain ⟨l, passRun, tracks⟩ := ih k later (lifetime.upTo after (Nat.le_of_lt later))
          resumes.frames (unfailed_of_le (Nat.le_of_lt later) clean)
        obtain ⟨moved, move, continues⟩ :=
          resumes.moves tracks rfl (unfailed_of_le later clean)
        exact ⟨_, passRun.goesOn move runs, continues children rfl now rfl n runs.heard⟩

/-! ### Accounts -/

def ruleTried? (H : History σ ω) (i : Nat) : Option Nat :=
  match (H.stack (i + 1)).frames.head? with
  | some (.rule x) => some x.index
  | _ => none

theorem Moves.own {after : Ledger} (move : H.Moves a below n l outcome after) :
    (H.stack n).depth = below.length + 1 := by
  obtain ⟨_, _, resumes, _⟩ := move
  rw [CallStack.depth, resumes.frames]
  rfl

theorem PassRun.ordered (passRun : H.PassRun a below first n l) : first ≤ n := by
  induction passRun with
  | enters => exact Nat.le_refl _
  | goesOn _ _ runs ih => exact Nat.le_trans ih (Nat.le_of_lt runs.later)

theorem PassRun.tried (passRun : H.PassRun a below first n l) :
    (H.turns below first n).filterMap H.ruleTried? = l.indices := by
  induction passRun with
  | enters => simp [turns, Ledger.indices]
  | @goesOn k n l after children previous before move runs ih =>
      rw [turns_of_runs before.ordered move.own runs, List.filterMap_append, ih]
      obtain ⟨now, later, resumes, move⟩ := move
      have same : after.indices = l.indices := by
        rcases move.goes_on with ⟨rfl, _⟩ | ⟨rfl, _⟩
        · rfl
        · exact l.indices_close
      rcases move.pushes with ⟨rule, index, rfl, _⟩ | other
      · have tried : H.ruleTried? k = some index := by
          rw [ruleTried?, resumes.stack_succ]
          rfl
        cases previous with
        | none => cases runs.heard.mp rfl
        | some r =>
            rw [Activation.ruleFrame, Ledger.indices_hear, same]
            simp [tried]
      · have tried : H.ruleTried? k = none := by
          rw [ruleTried?, resumes.stack_succ, CallStack.settle, List.head?_append,
            List.head?_reverse]
          cases top : children.getLast? with
          | none => rfl
          | some child =>
              cases child with
              | rule x => exact absurd top (other x)
              | module g | combo c | action x | hole => rfl
        rw [after.hear_other other, same]
        simp [tried]

/-- The exit condition is judged once for each pass that is closed. -/
theorem PassRun.judged (passRun : H.PassRun a below first n l) :
    (H.turns below first n).flatMap (fun i => goalAnswers (H.occurrences i)) =
      if a.module.exit = .noGoals then List.replicate l.passes.length true else [] := by
  induction passRun with
  | enters => simp [turns]
  | @goesOn k n l after children previous before move runs ih =>
      rw [turns_of_runs before.ordered move.own runs, List.flatMap_append, ih,
        List.flatMap_singleton, Ledger.passes_hear]
      obtain ⟨now, later, resumes, move⟩ := move
      rcases move.goes_on with ⟨rfl, unasked⟩ | ⟨rfl, _, judged⟩
      · rw [unasked, List.append_nil]
      · have closed : l.close.passes.length = l.passes.length + 1 := by simp [Ledger.close]
        rw [closed, List.replicate_succ']
        unfold Activation.Judged at judged
        cases exit : a.module.exit with
        | noGoals => simp only [exit] at judged; simp [judged]
        | noAction => simp only [exit] at judged; simp [judged]
        | always => simp only [exit] at judged; simp [judged]
        | never => simp only [exit] at judged; simp [judged]

theorem PassRun.orderly (passRun : H.PassRun a below first n l) :
    a.Orderly l.tried ∧ ∀ pass ∈ l.passes, a.Orderly pass ∧ a.closes pass = true := by
  induction passRun with
  | enters => exact ⟨.nil, fun pass member => by cases member⟩
  | @goesOn k n l after children previous before move runs ih =>
      obtain ⟨current, closed⟩ := ih
      obtain ⟨now, later, resumes, move⟩ := move
      have moved : a.Orderly after.tried ∧
          ∀ pass ∈ after.passes, a.Orderly pass ∧ a.closes pass = true := by
        rcases move.goes_on with ⟨rfl, _⟩ | ⟨rfl, ended, _⟩
        · exact ⟨current, closed⟩
        · refine ⟨.nil, fun pass member => ?_⟩
          rcases List.mem_append.mp member with earlier | here
          · exact closed pass earlier
          · rw [List.mem_singleton.mp here]
            exact ⟨current, ended⟩
      rw [Ledger.passes_hear]
      refine ⟨?_, moved.2⟩
      rcases move.pushes with ⟨rule, index, rfl, goesOn, leads⟩ | other
      · cases previous with
        | none => cases runs.heard.mp rfl
        | some r => exact moved.1.concat goesOn leads r
      · rw [after.hear_other other]
        exact moved.1

/-- What a module that tries its rules in order has done before turn `n`, and does in it, in a
history without failures. The rules that it has tried split into passes. Each pass follows the
order of the rules, or a shuffled one, and is closed by its last rule, or by the first that acts
if the order does not try all. The exit condition is judged once for each closed pass and at no
other time. Then the module leaves if the condition holds; else it goes on with a new pass, after
one run of the event module if it is the main one and there are events. -/
theorem pass_structure (S : Setting σ ω) {f : ModuleFrame} (fresh : f.Fresh)
    (situation : Situation σ ω) {g : ModuleFrame} {below : List Frame} {first n : Nat}
    (linear : g.activation.module.strategy = .linear)
    (lifetime : (ofModule S f situation).Lifetime (.module g) below first n)
    (own : ((ofModule S f situation).stack n).depth = below.length + 1)
    (clean : ((ofModule S f situation).stack (n + 1)).failed = false) :
    let H := ofModule S f situation
    let a := S.entered g.activation
    ∃ l outcome after, H.PassRun a below first n l ∧ H.Moves a below n l outcome after ∧
      (H.turns below first n).filterMap H.ruleTried? = l.indices ∧
      (H.turns below first n).flatMap (fun i => goalAnswers (H.occurrences i)) =
        (if a.module.exit = .noGoals then List.replicate l.passes.length true else []) ∧
      a.Orderly l.tried ∧ ∀ pass ∈ l.passes, a.Orderly pass ∧ a.closes pass = true := by
  intro H a
  have start : H.setting.Routed H.start := .ready (.bottom f) fresh.waits
  have before := unfailed_of_le (Nat.le_succ n) clean
  obtain ⟨x, frames, same⟩ := lifetime.frames own
  cases x with
  | rule x | combo c | action x | hole => cases same
  | module now =>
      obtain ⟨l, passRun, tracks⟩ :=
        lifetime.exists_passRun start rfl (Nat.le_refl 1) linear frames before
      obtain ⟨later, outcome, resumes⟩ := exists_resumes frames
      obtain ⟨after, move, _⟩ := resumes.moves tracks rfl clean
      exact ⟨l, outcome, after, passRun, move, passRun.tried, passRun.judged, passRun.orderly⟩

def learner : Module :=
  { Module.ofName "learner" with
    rules := [.ofKind .ifThen ⟨[⟨false, .belief, .atom "known"⟩]⟩ [.insert (.atom "known")],
      .ofKind .ifThen ⟨[⟨true, .goal, .atom "known"⟩]⟩ [.perform "act" []]]
    exit := .noAction }

def learning : History Simulation.World Simulation.Trace :=
  ofModule (Simulation.setting ⟨[], none, some learner, some (.ofName "events"), none⟩ .linear
    false) (.startMain learner) (Simulation.situation {} ⟨Vector.replicate 8 0, 0⟩)

/-- The first pass is closed by its first rule, the second one by its last, and after that the
module leaves. -/
theorem pass_structure_of_learner :
    let a := learning.setting.entered (ModuleFrame.startMain learner).activation
    ∃ l outcome after, learning.PassRun a [] 0 15 l ∧ learning.Moves a [] 15 l outcome after ∧
      l.indices = [0, 0, 1] ∧ a.Orderly l.tried ∧
      ∀ pass ∈ l.passes, a.Orderly pass ∧ a.closes pass = true := by
  intro a
  have stays : ∀ i, i < 16 → 0 < (learning.stack i).depth := by decide +kernel
  have lifetime : learning.Lifetime (.module (.startMain learner)) [] 0 15 :=
    ⟨rfl, rfl, Nat.zero_le 15, fun i _ before => stays i (by omega)⟩
  have own : (learning.stack 15).depth = 1 := by decide +kernel
  have clean : (learning.stack 16).failed = false := by decide +kernel
  have indices : (learning.turns [] 0 15).filterMap learning.ruleTried? = [0, 0, 1] := by
    decide +kernel
  obtain ⟨l, outcome, after, passRun, move, tried, _, orderly⟩ :=
    pass_structure _ (.startMain learner) _ rfl lifetime own clean
  exact ⟨l, outcome, after, passRun, move, tried.symm.trans indices, orderly⟩

end History

end CognitiveAgent
