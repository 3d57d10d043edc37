import CognitiveAgent.Proofs.Mirroring
import CognitiveAgent.Proofs.Pops

/-!
What occurs during a pop. A setting can be run with an observer that notes everything down, and
this changes nothing else. What it notes during one pop are the occurrences of that pop, and a
small logic of computations tells them together with the value returned.
-/

set_option autoImplicit false

namespace CognitiveAgent

variable {σ ω α β : Type}

def Setting.observedBy {υ : Type} (S : Setting σ ω) (observe : σ → Occurrence → υ → υ) :
    Setting σ υ :=
  { program := S.program
    defaultOrder := S.defaultOrder
    respond := S.respond
    observe }

/-- The same setting with an observer that notes every occurrence, the latest last. -/
def Setting.traced (S : Setting σ ω) : Setting σ (List Occurrence) :=
  { program := S.program
    defaultOrder := S.defaultOrder
    respond := S.respond
    observe := fun _ occurrence seen => seen ++ [occurrence] }

namespace Situation

def unseen (s : Situation σ ω) : Situation σ (List Occurrence) :=
  ⟨s.world, [], s.random, s.entered⟩

/-- The situations differ at most in what an observer has made of the run. -/
structure Alike {υ : Type} (s : Situation σ ω) (t : Situation σ υ) : Prop where
  world : s.world = t.world
  random : s.random = t.random
  entered : s.entered = t.entered

theorem alike_unseen (s : Situation σ ω) : s.Alike s.unseen := ⟨rfl, rfl, rfl⟩

theorem Alike.unseen {υ : Type} {s : Situation σ ω} {t : Situation σ υ} (alike : s.Alike t) :
    s.unseen = t.unseen := by
  unfold Situation.unseen
  rw [alike.world, alike.random, alike.entered]

end Situation

/-- Nothing that an observer makes of a run comes back into it. -/
theorem Setting.mirrors_observedBy {υ : Type} (S : Setting σ ω)
    (observe : σ → Occurrence → υ → υ) : S.Mirrors (S.observedBy observe) Situation.Alike where
  program := rfl
  defaultOrder := rfl
  ask request s t alike := by
    unfold Setting.ask Setting.observedBy
    rw [alike.world]
    exact ⟨rfl, rfl, alike.random, alike.entered⟩
  tell event s t alike := ⟨rfl, alike.world, alike.random, alike.entered⟩
  log term s t alike := ⟨rfl, alike.world, alike.random, alike.entered⟩
  shuffle items s t alike := by
    unfold Situation.shuffle
    rw [alike.random]
    exact ⟨rfl, alike.world, rfl, alike.entered⟩
  enter name s t alike := by
    refine ⟨rfl, alike.world, alike.random, ?_⟩
    exact congrArg (· ++ [name]) alike.entered
  leave name s t alike := by
    refine ⟨rfl, alike.world, alike.random, ?_⟩
    exact congrArg (fun names => (names.reverse.erase name).reverse) alike.entered

theorem Setting.mirrors_traced (S : Setting σ ω) : S.Mirrors S.traced Situation.Alike :=
  S.mirrors_observedBy fun _ occurrence seen => seen ++ [occurrence]

/-- What occurs when the stack is popped in this situation. -/
def Setting.occurrences (S : Setting σ ω) (stack : CallStack) (situation : Situation σ ω) :
    List Occurrence :=
  (S.traced.pop stack situation.unseen).2.record

def History.occurrences (H : History σ ω) (n : Nat) : List Occurrence :=
  H.setting.occurrences (H.stack n) (H.situation n)

/-! ### Kinds of occurrences -/

namespace Occurrence

def poll? : Occurrence → Option Bool
  | .exchange .stopSignal answer => some answer
  | _ => none

def goals? : Occurrence → Option Bool
  | .exchange .hasGoals answer => some answer
  | _ => none

def isPerform : Occurrence → Bool
  | .exchange (.perform _) _ => true
  | _ => false

def isEvaluation : Occurrence → Bool
  | .exchange (.evaluate ..) _ => true
  | _ => false

end Occurrence

def polls (seen : List Occurrence) : List Bool := seen.filterMap Occurrence.poll?

def goalAnswers (seen : List Occurrence) : List Bool := seen.filterMap Occurrence.goals?

@[simp]
theorem polls_nil : polls [] = [] := rfl

@[simp]
theorem polls_append (seen more : List Occurrence) :
    polls (seen ++ more) = polls seen ++ polls more := List.filterMap_append

@[simp]
theorem polls_stopSignal (answer : Bool) (seen : List Occurrence) :
    polls (.exchange .stopSignal answer :: seen) = answer :: polls seen := rfl

@[simp]
theorem goalAnswers_nil : goalAnswers [] = [] := rfl

@[simp]
theorem goalAnswers_append (seen more : List Occurrence) :
    goalAnswers (seen ++ more) = goalAnswers seen ++ goalAnswers more := List.filterMap_append

@[simp]
theorem goalAnswers_hasGoals (answer : Bool) (seen : List Occurrence) :
    goalAnswers (.exchange .hasGoals answer :: seen) = answer :: goalAnswers seen := rfl

@[simp]
theorem goalAnswers_stopSignal (answer : Bool) (seen : List Occurrence) :
    goalAnswers (.exchange .stopSignal answer :: seen) = goalAnswers seen := rfl

theorem polls_eq_nil {seen : List Occurrence} (quiet : ∀ o ∈ seen, o.poll? = none) :
    polls seen = [] := List.filterMap_eq_nil_iff.mpr quiet

theorem goalAnswers_eq_nil {seen : List Occurrence} (quiet : ∀ o ∈ seen, o.goals? = none) :
    goalAnswers seen = [] := List.filterMap_eq_nil_iff.mpr quiet

/-! ### A logic of noted occurrences -/

namespace Exec

/-- Whatever the situation, what the computation notes and the value it returns go together. -/
def Logs (computation : Exec σ (List Occurrence) α) (holds : α → List Occurrence → Prop) : Prop :=
  ∀ s, ∃ seen, (computation s).2.record = s.record ++ seen ∧ holds (computation s).1 seen

def Only (computation : Exec σ (List Occurrence) α) (kind : Occurrence → Prop) : Prop :=
  computation.Logs fun _ seen => ∀ o ∈ seen, kind o

variable {computation : Exec σ (List Occurrence) α} {kind : Occurrence → Prop}

theorem logs_pure {holds : α → List Occurrence → Prop} {value : α} (here : holds value []) :
    Logs (pure value : Exec σ (List Occurrence) α) holds := by
  intro s
  exact ⟨[], (List.append_nil _).symm, here⟩

theorem Logs.bind {first : Exec σ (List Occurrence) α} {rest : α → Exec σ (List Occurrence) β}
    {middle : α → List Occurrence → Prop} {holds : β → List Occurrence → Prop}
    (before : Logs first middle)
    (after : ∀ value seen, middle value seen →
      Logs (rest value) fun last more => holds last (seen ++ more)) :
    Logs (first >>= rest) holds := by
  intro s
  obtain ⟨seen, noted, here⟩ := before s
  obtain ⟨more, alsoNoted, there⟩ := after _ _ here (first s).2
  refine ⟨seen ++ more, ?_, there⟩
  rw [bind_apply, alsoNoted, noted, List.append_assoc]

theorem Logs.mono {holds weaker : α → List Occurrence → Prop} (strong : computation.Logs holds)
    (implies : ∀ value seen, holds value seen → weaker value seen) : computation.Logs weaker := by
  intro s
  obtain ⟨seen, noted, here⟩ := strong s
  exact ⟨seen, noted, implies _ _ here⟩

/-- A computation whose value is only put in another form notes the same. -/
theorem Logs.map {holds : β → List Occurrence → Prop} {form : α → β}
    (logs : computation.Logs fun value seen => holds (form value) seen) :
    (computation >>= fun value => pure (form value)).Logs holds := by
  refine logs.bind fun value seen here => logs_pure ?_
  rw [List.append_nil]
  exact here

theorem only_pure (value : α) : Only (pure value : Exec σ (List Occurrence) α) kind :=
  logs_pure fun _ member => absurd member List.not_mem_nil

theorem Only.bind {first : Exec σ (List Occurrence) α} {rest : α → Exec σ (List Occurrence) β}
    (before : first.Only kind) (after : ∀ value, (rest value).Only kind) :
    (first >>= rest).Only kind := by
  refine Logs.bind before fun value seen first => (after value).mono fun _ more second => ?_
  intro o member
  rcases List.mem_append.mp member with earlier | later
  · exact first o earlier
  · exact second o later

theorem Only.mono {weaker : Occurrence → Prop} (only : computation.Only kind)
    (implies : ∀ o, kind o → weaker o) : computation.Only weaker :=
  Logs.mono only fun _ _ all o member => implies o (all o member)

theorem Logs.and {holds others : α → List Occurrence → Prop} (first : computation.Logs holds)
    (second : computation.Logs others) :
    computation.Logs fun value seen => holds value seen ∧ others value seen := by
  intro s
  obtain ⟨seen, noted, here⟩ := first s
  obtain ⟨again, alsoNoted, there⟩ := second s
  have same : seen = again := List.append_cancel_left (noted.symm.trans alsoNoted)
  subst same
  exact ⟨seen, noted, here, there⟩

/-- Values that a computation can return, and what it notes, may be told apart. -/
theorem Logs.and_returns {holds : α → List Occurrence → Prop} {returned : α → Prop}
    (logs : computation.Logs holds) (returns : computation.Returns returned) :
    computation.Logs fun value seen => holds value seen ∧ returned value := by
  intro s
  obtain ⟨seen, noted, here⟩ := logs s
  exact ⟨seen, noted, here, returns s⟩

end Exec

namespace Setting

variable (S : Setting σ ω)

theorem ask_logs {request : Request} {holds : request.Answer → List Occurrence → Prop}
    (here : ∀ answer, holds answer [.exchange request answer]) :
    (S.traced.ask request).Logs holds :=
  fun _ => ⟨_, rfl, here _⟩

theorem ask_bind {request : Request} {rest : request.Answer → Exec σ (List Occurrence) β}
    {holds : β → List Occurrence → Prop}
    (after : ∀ answer, (rest answer).Logs fun last more =>
      holds last (.exchange request answer :: more)) : (S.traced.ask request >>= rest).Logs holds := by
  have asked : (S.traced.ask request).Logs fun answer seen => seen = [.exchange request answer] :=
    S.ask_logs fun answer => rfl
  refine asked.bind fun answer seen noted => ?_
  subst noted
  exact after answer

theorem note_logs {occurrence : Occurrence} {holds : Unit → List Occurrence → Prop}
    (here : holds () [occurrence]) : (S.traced.note occurrence).Logs holds :=
  fun _ => ⟨_, rfl, here⟩

theorem ask_only {request : Request} {kind : Occurrence → Prop}
    (here : ∀ answer, kind (.exchange request answer)) : (S.traced.ask request).Only kind := by
  refine S.ask_logs fun answer o member => ?_
  rw [List.mem_singleton.mp member]
  exact here answer

theorem note_only {occurrence : Occurrence} {kind : Occurrence → Prop} (here : kind occurrence) :
    (S.traced.note occurrence).Only kind := by
  refine S.note_logs fun o member => ?_
  rw [List.mem_singleton.mp member]
  exact here

theorem shuffle_logs (items : List α) :
    (Situation.shuffle items : Exec σ (List Occurrence) (List α)).Logs fun shuffled seen =>
      seen = [] ∧ ∃ random : Random, shuffled = (random.shuffle items).1 :=
  fun s => ⟨[], (List.append_nil _).symm, rfl, s.random, rfl⟩

theorem enter_only (name : String) (kind : Occurrence → Prop) :
    (Situation.enter name : Exec σ (List Occurrence) Unit).Only kind :=
  fun _ => ⟨[], (List.append_nil _).symm, fun _ member => absurd member List.not_mem_nil⟩

theorem leave_only (name : String) (kind : Occurrence → Prop) :
    (Situation.leave name : Exec σ (List Occurrence) Unit).Only kind :=
  fun _ => ⟨[], (List.append_nil _).symm, fun _ member => absurd member List.not_mem_nil⟩

/-- What the traced setting tells of a resumption is what occurs when the frame is popped. -/
theorem occurs {f : Frame} {previous : Option Completed}
    {holds : Frame × Outcome → List Occurrence → Prop}
    (logs : (S.traced.resume f previous).Logs holds) (below : List Frame)
    (situation : Situation σ ω) :
    holds (S.resume f previous situation).1
      (S.occurrences ⟨f :: below, previous⟩ situation) := by
  obtain ⟨same, _⟩ := S.mirrors_traced.resume f previous _ _ situation.alike_unseen
  obtain ⟨seen, noted, here⟩ := logs situation.unseen
  have all : S.occurrences ⟨f :: below, previous⟩ situation = seen := noted
  rw [same, all]
  exact here

end Setting

/-! ### Answers of the world -/

def Occurrence.Given (S : Setting σ ω) : Occurrence → Prop
  | .exchange request answer => ∃ world, (S.respond request world).1 = answer
  | .event _ | .logged _ => True

namespace Setting

variable (S : Setting σ ω)

theorem mirrors_given :
    S.traced.Mirrors S.traced fun s t => s = t ∧ ∀ o ∈ s.record, o.Given S := by
  have noted {s : Situation σ (List Occurrence)} {last : Occurrence}
      (before : ∀ o ∈ s.record, o.Given S) (here : last.Given S) :
      ∀ o ∈ s.record ++ [last], o.Given S := by
    intro o member
    rcases List.mem_append.mp member with earlier | added
    · exact before o earlier
    · rw [List.mem_singleton.mp added]
      exact here
  exact {
    program := rfl
    defaultOrder := rfl
    ask := by
      rintro request s _ ⟨rfl, given⟩
      exact ⟨rfl, rfl, noted given ⟨s.world, rfl⟩⟩
    tell := by
      rintro event s _ ⟨rfl, given⟩
      exact ⟨rfl, rfl, noted given trivial⟩
    log := by
      rintro term s _ ⟨rfl, given⟩
      exact ⟨rfl, rfl, noted given trivial⟩
    shuffle := by
      rintro _ items s _ ⟨rfl, given⟩
      exact ⟨rfl, rfl, given⟩
    enter := by
      rintro name s _ ⟨rfl, given⟩
      exact ⟨rfl, rfl, given⟩
    leave := by
      rintro name s _ ⟨rfl, given⟩
      exact ⟨rfl, rfl, given⟩ }

variable {S}

/-- What a computation can return, as far as it goes with what occurs; all answers among that are
the world's. -/
theorem returns_of_logs {computation : Exec σ ω α} {noting : Exec σ (List Occurrence) α}
    {holds : α → List Occurrence → Prop}
    (same : Exec.Agree Situation.Alike computation noting)
    (given : Exec.Agree (fun s t => s = t ∧ ∀ o ∈ s.record, o.Given S) noting noting)
    (logs : noting.Logs holds) :
    computation.Returns fun value => ∃ seen, (∀ o ∈ seen, o.Given S) ∧ holds value seen := by
  intro situation
  obtain ⟨seen, noted, here⟩ := logs situation.unseen
  have all : (noting situation.unseen).2.record = seen := noted
  rw [(same _ _ situation.alike_unseen).1]
  refine ⟨seen, ?_, here⟩
  rw [← all]
  exact (given situation.unseen _ ⟨rfl, fun o member => absurd member List.not_mem_nil⟩).2.2

end Setting

theorem History.Resumes.occurs {H : History σ ω} {n : Nat} {f later : Frame} {below : List Frame}
    {outcome : Outcome} {holds : Frame × Outcome → List Occurrence → Prop}
    (resumes : H.Resumes n f below later outcome)
    (logs : (H.setting.traced.resume f (H.stack n).previous).Logs holds) :
    holds (later, outcome) (H.occurrences n) := by
  have here := H.setting.occurs logs below (H.situation n)
  rw [resumes.returns] at here
  unfold History.occurrences
  rw [stack_eq resumes.frames]
  exact here

end CognitiveAgent
