import CognitiveAgent.Program.Construction
import CognitiveAgent.Program.JsonForm
import CognitiveAgent.Proofs.RecordForms

/-!
The forms of programs in JSON. The forms of a value are its encoding and what is left of it when
fields that have their declared defaults are left out, here and there or everywhere, and at any
depth: also in modules that are written out in place. Main statement: decoding gives back the
value from each of its forms. The forms are JSON values, which hold any number here. A text does
not: a number that is not finite is written as null, and null does not decode to a number.
-/

set_option autoImplicit false

namespace CognitiveAgent

open Json (RecordOf VariantOf ArrayWith Manner)

namespace Term

mutual

private theorem decode?_toJson (manner : Manner) :
    (fuel : Nat) → (t : Term) → t.toJson.height < fuel → decode? fuel manner t.toJson = some t
  | fuel + 1, .var name, _ => by
      simp [toJson, decode?, Json.variant?_tagged, Json.string?]
  | fuel + 1, .atom name, _ => by
      simp [toJson, decode?, Json.variant?_tagged, Json.string?]
  | fuel + 1, .number value, _ => by
      simp [toJson, decode?, Json.variant?_tagged, Json.number?]
  | fuel + 1, .string value, _ => by
      simp [toJson, decode?, Json.variant?_tagged, Json.string?]
  | fuel + 1, .compound functor args, enough => by
      have shallow : Json.heightAll (toJsonAll args) < fuel := by
        simp only [toJson, Json.height_tagged, Json.height, Json.heightMembers] at enough
        omega
      simp [toJson, decode?, Json.variant?_tagged, Json.objectFields?, Json.member?,
        Json.required?, Json.string?, Json.list?, mapM_decode?_toJsonAll manner fuel args shallow]
  | fuel + 1, .list items, enough => by
      have shallow : Json.heightAll (toJsonAll items) < fuel := by
        simp only [toJson, Json.height_tagged, Json.height] at enough
        omega
      simp [toJson, decode?, Json.variant?_tagged, Json.list?,
        mapM_decode?_toJsonAll manner fuel items shallow]

private theorem mapM_decode?_toJsonAll (manner : Manner) (fuel : Nat) :
    (ts : List Term) → Json.heightAll (toJsonAll ts) < fuel →
      (toJsonAll ts).mapM (decode? fuel manner) = some ts
  | [], _ => rfl
  | t :: ts, enough => by
      simp only [toJsonAll, Json.heightAll] at enough
      have first := decode?_toJson manner fuel t (by omega)
      have rest := mapM_decode?_toJsonAll manner fuel ts (by omega)
      simp [toJsonAll, List.mapM_cons, first, rest]

end

private theorem read?_toJson (manner : Manner) (t : Term) : read? manner t.toJson = some t :=
  decode?_toJson manner _ t (Nat.lt_succ_self _)

private theorem listField?_of_found (manner : Manner) {ts : List Term} {name : String}
    {height : Nat} {found : Option Json}
    (shape : (Json.Field.plain name (ts = []) (.ofList toJson ts)).Found height found) :
    listField? manner found = some ts :=
  Json.optional?_plain shape (Json.list?_ofList (read?_toJson manner) ts)

end Term

namespace Substitution

/-- A binding whose variable comes after all others is put at the end. -/
theorem place_of_later (name : String) (term : Term) {bindings : List (String × Term)}
    (later : ∀ binding ∈ bindings, binding.1 < name) :
    place name term bindings = bindings ++ [(name, term)] := by
  induction bindings with
  | nil => rfl
  | cons first rest ih =>
      have before := later first List.mem_cons_self
      have notBefore : ¬ name < first.1 := String.lt_asymm before
      have different : name ≠ first.1 := by
        intro same
        exact String.lt_irrefl name (same ▸ before)
      simp only [place, notBefore, different, if_false, List.cons_append]
      rw [ih fun binding listed => later binding (List.mem_cons_of_mem _ listed)]

private theorem foldl_bind (bindings : List (String × Term)) (s : Substitution)
    (ascending : (s.bindings ++ bindings).Pairwise fun first second => first.1 < second.1) :
    (bindings.foldl (fun s binding => s.bind binding.1 binding.2) s).bindings =
      s.bindings ++ bindings := by
  induction bindings generalizing s with
  | nil => simp
  | cons first rest ih =>
      have later : ∀ binding ∈ s.bindings, binding.1 < first.1 := fun binding listed =>
        (List.pairwise_append.1 ascending).2.2 binding listed first List.mem_cons_self
      have placed : (s.bind first.1 first.2).bindings = s.bindings ++ [first] :=
        place_of_later first.1 first.2 later
      have together : s.bindings ++ first :: rest = s.bindings ++ [first] ++ rest := by simp
      rw [together] at ascending ⊢
      rw [← placed] at ascending ⊢
      exact ih (s.bind first.1 first.2) ascending

private theorem ofList_bindings (s : Substitution) : ofList s.bindings = s := by
  have same : (ofList s.bindings).bindings = s.bindings := foldl_bind s.bindings empty s.ascending
  cases s
  generalize ofList _ = other at same
  cases other
  simpa using same

private theorem ofJson?_toJson (s : Substitution) : ofJson? s.toJson = some s := by
  have decoded (bindings : List (String × Term)) :
      (bindings.map fun binding => (binding.1, binding.2.toJson)).mapM
        (fun member => do return (member.1, ← Term.ofJson? member.2)) = some bindings := by
    induction bindings with
    | nil => rfl
    | cons first rest ih =>
        have term : Term.ofJson? first.2.toJson = some first.2 := Term.read?_toJson .strict _
        simp only [List.map_cons, List.mapM_cons, term, ih]
        rfl
  simp only [toJson, ofJson?]
  rw [decoded]
  exact congrArg some (ofList_bindings s)

end Substitution

namespace Location

def fields (l : Location) : List Json.Field :=
  [.plain "file" False (.string l.file), .plain "line" False (.ofNat l.line.toNat),
    .plain "column" False (.ofNat l.column.toNat)]

private theorem word?_ofNat (n : UInt32) : word? (.ofNat n.toNat) = some n := by
  have inRange : (0 : Int) ≤ n.toNat ∧ (n.toNat : Int) < Nat.pow 2 32 :=
    ⟨Int.natCast_nonneg _, Int.ofNat_lt.2 n.toNat_lt⟩
  rw [word?, Json.ofNat, Json.natBelow?, if_pos inRange]
  simp

private theorem ofJson?_toJson (l : Location) : ofJson? l.toJson = some l := by
  have record : RecordOf l.fields l.toJson := .kept rfl (.kept rfl (.kept rfl .done))
  obtain ⟨found, taken, shape⟩ := record.fields? ["file", "line", "column"] (by decide) rfl
  match found, shape with
  | [file, line, column], ⟨hFile, hLine, hColumn, _⟩ =>
      have hFile := Json.string_of_found hFile
      have hLine := Json.required?_plain hLine (word?_ofNat l.line)
      have hColumn := Json.required?_plain hColumn (word?_ofNat l.column)
      simp [ofJson?, taken, hFile, hLine, hColumn]

/-- A source may be left open. -/
theorem field?_of_found {source : Option Location} {name : String} {height : Nat}
    {found : Option Json}
    (shape : (Json.Field.plain name (source = none) (.ofOption toJson source)).Found height found) :
    field? found = some source := by
  apply Json.optional?_plain shape
  apply Json.nullable?_ofOption ofJson?_toJson
  intro l
  simp [toJson]

end Location

private theorem Attitude.read?_toJson (manner : Manner) (a : Attitude) :
    read? manner a.toJson = some a := by
  cases a <;> rfl

private theorem RuleOrder.read?_toJson (manner : Manner) (o : RuleOrder) :
    read? manner o.toJson = some o := by
  cases o <;> rfl

private theorem RuleOrder.nullable?_toJson (manner : Manner) (order : Option RuleOrder) :
    Json.nullable? (read? manner) (.ofOption toJson order) = some order := by
  apply Json.nullable?_ofOption (read?_toJson manner)
  intro o
  simp [toJson]

private theorem ExitCondition.read?_toJson (manner : Manner) (e : ExitCondition) :
    read? manner e.toJson = some e := by
  cases e <;> rfl

private theorem FocusMethod.read?_toJson (manner : Manner) (f : FocusMethod) :
    read? manner f.toJson = some f := by
  cases f <;> rfl

private theorem Strategy.read?_toJson (manner : Manner) (s : Strategy) :
    read? manner s.toJson = some s := by
  cases s <;> rfl

private theorem RuleKind.read?_toJson (manner : Manner) (k : RuleKind) :
    read? manner k.toJson = some k := by
  cases k <;> rfl

private theorem Effect.read?_toJson (manner : Manner) (e : Effect) :
    read? manner e.toJson = some e := by
  cases e <;> simp [toJson, read?, Json.variant?_tagged, Term.read?_toJson]

private theorem MentalAction.read?_toJson (manner : Manner) (a : MentalAction) :
    read? manner a.toJson = some a := by
  cases a with
  | exit => rfl
  | _ => simp [toJson, read?, Json.variant?_tagged, Term.read?_toJson]

namespace Literal

def Forms (l : Literal) : Json → Prop :=
  RecordOf [.plain "positive" (l.positive = true) (.bool l.positive),
    .plain "kind" False l.attitude.toJson, .plain "formula" False l.formula.toJson]

private theorem forms_toJson (l : Literal) : l.Forms l.toJson := .kept rfl
    (.kept rfl (.kept rfl .done))

private theorem read?_of_forms (manner : Manner) (l : Literal) (json : Json) (form : l.Forms json) :
    read? manner json = some l := by
  obtain ⟨found, taken, shape⟩ :=
    RecordOf.fields? form ["positive", "kind", "formula"] (by decide) rfl
  match found, shape with
  | [positive, kind, formula], ⟨hPositive, hKind, hFormula, _⟩ =>
      have hPositive : Json.optional? true Json.bool? positive = some l.positive :=
        Json.optional?_plain hPositive rfl
      have hKind := Json.required?_plain hKind (Attitude.read?_toJson manner l.attitude)
      have hFormula := Json.required?_plain hFormula (Term.read?_toJson manner l.formula)
      simp [read?, taken, hPositive, hKind, hFormula]

end Literal

namespace Condition

def Forms (c : Condition) : Json → Prop :=
  ArrayWith (Json.Itemwise Literal.Forms c.literals)

private theorem forms_toJson (c : Condition) : c.Forms c.toJson :=
  ⟨_, rfl, Json.itemwise_map Literal.forms_toJson c.literals⟩

private theorem read?_of_forms (manner : Manner) (c : Condition) (json : Json)
    (form : c.Forms json) :
    read? manner json = some c := by
  simp [read?, ArrayWith.list? form (Literal.read?_of_forms manner)]

end Condition

namespace UserAction

def Forms (a : UserAction) : Json → Prop :=
  RecordOf [.plain "name" False (.string a.name),
    .plain "params" (a.params = []) (.ofList Term.toJson a.params),
    ⟨"pre", a.pre = .always, a.pre.Forms⟩,
    .plain "post" (a.post = []) (.ofList Effect.toJson a.post),
    .plain "source" (a.source = none) (.ofOption Location.toJson a.source)]

private theorem forms_toJson (a : UserAction) : a.Forms a.toJson :=
  .kept rfl (.kept rfl (.kept a.pre.forms_toJson (.kept rfl (.kept rfl .done))))

private theorem read?_of_forms (manner : Manner) (a : UserAction) (json : Json)
    (form : a.Forms json) :
    read? manner json = some a := by
  obtain ⟨found, taken, shape⟩ :=
    RecordOf.fields? form ["name", "params", "pre", "post", "source"] (by decide) rfl
  match found, shape with
  | [name, params, pre, post, source], ⟨hName, hParams, hPre, hPost, hSource, _⟩ =>
      have hName := Json.string_of_found hName
      have hParams := Term.listField?_of_found manner hParams
      have hPre := Json.optional?_of_found hPre fun json _ => a.pre.read?_of_forms manner json
      have hPost := Json.optional?_plain hPost (Json.list?_ofList (Effect.read?_toJson manner) _)
      have hSource := Location.field?_of_found hSource
      simp [read?, taken, hName, hParams, hPre, hPost, hSource]

end UserAction

mutual

/-- The forms of an action. What has no defaults in it has its encoding as its only form. -/
def Action.Forms : Action → Json → Prop
  | .user action => VariantOf "UserSpec" action.Forms
  | .call target params source =>
    VariantOf "ModuleCall" (RecordOf [⟨"target", False, CallTarget.Forms target⟩,
      .plain "params" (params = []) (.ofList Term.toJson params),
      .plain "source" (source = none) (.ofOption Location.toJson source)])
  | .mental action => VariantOf "Mental" (· = action.toJson)

def CallTarget.Forms : CallTarget → Json → Prop
  | .named name => VariantOf "Named" (· = .string name)
  | .inPlace body => VariantOf "Anonymous" (Module.Forms body)

def Action.FormsAll : List Action → List Json → Prop
  | [], [] => True
  | action :: actions, item :: items => Action.Forms action item ∧ Action.FormsAll actions items
  | _, _ => False

def Rule.Forms : Rule → Json → Prop
  | ⟨kind, condition, combo, source⟩ =>
    RecordOf [.plain "kind" (kind = .ifThen) kind.toJson,
      ⟨"condition", condition = .always, condition.Forms⟩,
      ⟨"action", False, ArrayWith (Action.FormsAll combo)⟩,
      .plain "source" (source = none) (.ofOption Location.toJson source)]

def Rule.FormsAll : List Rule → List Json → Prop
  | [], [] => True
  | rule :: rules, item :: items => Rule.Forms rule item ∧ Rule.FormsAll rules items
  | _, _ => False

def Module.Forms : Module → Json → Prop
  | ⟨name, parameters, rules, order, exit, focus, anonymous, beliefs, goals, strategy, source⟩ =>
    RecordOf [.plain "name" False (.string name),
      .plain "parameters" (parameters = []) (.ofList Term.toJson parameters),
      ⟨"rules", rules = [], ArrayWith (Rule.FormsAll rules)⟩,
      .plain "order" (order = none) (.ofOption RuleOrder.toJson order),
      .plain "exit" (exit = .always) exit.toJson, .plain "focus" (focus = .none) focus.toJson,
      .plain "anonymous" (anonymous = false) (.bool anonymous),
      .plain "beliefs" (beliefs = []) (.ofList Term.toJson beliefs),
      .plain "goals" (goals = []) (.ofList Term.toJson goals),
      .plain "strategy" (strategy = .linear) strategy.toJson,
      .plain "source" (source = none) (.ofOption Location.toJson source)]

end

mutual

private theorem Action.forms_toJson : (a : Action) → a.Forms a.toJson
  | .user action => ⟨_, rfl, action.forms_toJson⟩
  | .call target _ _ => ⟨_, rfl, .kept (CallTarget.forms_toJson target) (.kept rfl (.kept rfl .done))⟩
  | .mental _ => ⟨_, rfl, rfl⟩

private theorem CallTarget.forms_toJson : (target : CallTarget) → target.Forms target.toJson
  | .named _ => ⟨_, rfl, rfl⟩
  | .inPlace body => ⟨_, rfl, Module.forms_toJson body⟩

private theorem Action.formsAll_toJsonAll :
    (actions : List Action) → Action.FormsAll actions (Action.toJsonAll actions)
  | [] => trivial
  | action :: actions => ⟨Action.forms_toJson action, Action.formsAll_toJsonAll actions⟩

private theorem Rule.forms_toJson : (rule : Rule) → rule.Forms rule.toJson
  | ⟨_, condition, combo, _⟩ =>
    .kept rfl (.kept condition.forms_toJson
      (.kept ⟨_, rfl, Action.formsAll_toJsonAll combo⟩ (.kept rfl .done)))

private theorem Rule.formsAll_toJsonAll :
    (rules : List Rule) → Rule.FormsAll rules (Rule.toJsonAll rules)
  | [] => trivial
  | rule :: rules => ⟨Rule.forms_toJson rule, Rule.formsAll_toJsonAll rules⟩

private theorem Module.forms_toJson : (m : Module) → m.Forms m.toJson
  | ⟨_, _, rules, _, _, _, _, _, _, _, _⟩ =>
    .kept rfl (.kept rfl (.kept ⟨_, rfl, Rule.formsAll_toJsonAll rules⟩
      (.kept rfl (.kept rfl (.kept rfl (.kept rfl (.kept rfl (.kept rfl (.kept rfl
        (.kept rfl .done))))))))))

end

mutual

private theorem Action.decode?_of_forms (manner : Manner) : (fuel : Nat) → (a : Action) →
    (json : Json) → a.Forms json → json.height < fuel → Action.decode? fuel manner json = some a
  | fuel + 1, .user action, json, form, _ => by
      obtain ⟨content, rfl, form⟩ := form
      simp [Action.decode?, Json.variant?_tagged, action.read?_of_forms manner content form]
  | fuel + 1, .call target params source, json, form, enough => by
      obtain ⟨content, rfl, record⟩ := form
      rw [Json.height_tagged] at enough
      obtain ⟨found, taken, shape⟩ :=
        RecordOf.fields? record ["target", "params", "source"] (by decide) rfl
      match found, shape with
      | [target?, params?, source?], ⟨hTarget, hParams, hSource, _⟩ =>
          have hTarget := Json.required?_of_found hTarget fun json low form =>
            CallTarget.decode?_of_forms manner fuel target json form (by omega)
          have hParams := Term.listField?_of_found manner hParams
          have hSource := Location.field?_of_found hSource
          simp [Action.decode?, Json.variant?_tagged, taken, hTarget, hParams, hSource]
  | fuel + 1, .mental action, json, form, _ => by
      obtain ⟨content, rfl, rfl⟩ := form
      simp [Action.decode?, Json.variant?_tagged, action.read?_toJson manner]

private theorem CallTarget.decode?_of_forms (manner : Manner) : (fuel : Nat) →
    (target : CallTarget) → (json : Json) → target.Forms json → json.height < fuel →
      CallTarget.decode? fuel manner json = some target
  | fuel + 1, .named name, json, form, _ => by
      obtain ⟨content, rfl, rfl⟩ := form
      simp [CallTarget.decode?, Json.variant?_tagged, Json.string?]
  | fuel + 1, .inPlace body, json, form, enough => by
      obtain ⟨content, rfl, form⟩ := form
      rw [Json.height_tagged] at enough
      have hBody := Module.decode?_of_forms manner fuel body content form (by omega)
      simp [CallTarget.decode?, Json.variant?_tagged, hBody]

private theorem Action.mapM_of_formsAll (manner : Manner) (fuel : Nat) : (actions : List Action) →
    (items : List Json) → Action.FormsAll actions items → Json.heightAll items < fuel →
      items.mapM (Action.decode? fuel manner) = some actions
  | [], [], _, _ => rfl
  | action :: actions, item :: items, ⟨form, forms⟩, enough => by
      simp only [Json.heightAll] at enough
      have first := Action.decode?_of_forms manner fuel action item form (by omega)
      have rest := Action.mapM_of_formsAll manner fuel actions items forms (by omega)
      simp [List.mapM_cons, first, rest]

private theorem Rule.decode?_of_forms (manner : Manner) : (fuel : Nat) → (rule : Rule) →
    (json : Json) → rule.Forms json → json.height < fuel → Rule.decode? fuel manner json = some rule
  | fuel + 1, ⟨kind, condition, combo, source⟩, json, form, enough => by
      obtain ⟨found, taken, shape⟩ :=
        RecordOf.fields? form ["kind", "condition", "action", "source"] (by decide) rfl
      match found, shape with
      | [kind?, condition?, combo?, source?], ⟨hKind, hCondition, hCombo, hSource, _⟩ =>
          have hKind := Json.optional?_plain hKind (RuleKind.read?_toJson manner kind)
          have hCondition := Json.optional?_of_found hCondition fun json _ =>
            condition.read?_of_forms manner json
          have hCombo : Json.required? (Json.list? (Action.decode? fuel manner)) combo? =
              some combo := by
            apply Json.required?_of_found hCombo
            rintro json low ⟨items, rfl, forms⟩
            simp only [Json.height] at low
            exact Action.mapM_of_formsAll manner fuel combo items forms (by omega)
          have hSource := Location.field?_of_found hSource
          simp [Rule.decode?, taken, hKind, hCondition, hCombo, hSource]

private theorem Rule.mapM_of_formsAll (manner : Manner) (fuel : Nat) : (rules : List Rule) →
    (items : List Json) → Rule.FormsAll rules items → Json.heightAll items < fuel →
      items.mapM (Rule.decode? fuel manner) = some rules
  | [], [], _, _ => rfl
  | rule :: rules, item :: items, ⟨form, forms⟩, enough => by
      simp only [Json.heightAll] at enough
      have first := Rule.decode?_of_forms manner fuel rule item form (by omega)
      have rest := Rule.mapM_of_formsAll manner fuel rules items forms (by omega)
      simp [List.mapM_cons, first, rest]

private theorem Module.decode?_of_forms (manner : Manner) : (fuel : Nat) → (m : Module) →
    (json : Json) → m.Forms json → json.height < fuel → Module.decode? fuel manner json = some m
  | fuel + 1, ⟨name, parameters, rules, order, exit, focus, anonymous, beliefs, goals, strategy,
      source⟩, json, form, enough => by
      obtain ⟨found, taken, shape⟩ :=
        RecordOf.fields? form ["name", "parameters", "rules", "order", "exit", "focus",
          "anonymous", "beliefs", "goals", "strategy", "source"] (by decide) rfl
      match found, shape with
      | [name?, parameters?, rules?, order?, exit?, focus?, anonymous?, beliefs?, goals?,
          strategy?, source?],
        ⟨hName, hParameters, hRules, hOrder, hExit, hFocus, hAnonymous, hBeliefs, hGoals,
          hStrategy, hSource, _⟩ =>
          have hName := Json.string_of_found hName
          have hParameters := Term.listField?_of_found manner hParameters
          have hRules : Json.optional? [] (Json.list? (Rule.decode? fuel manner)) rules? =
              some rules := by
            apply Json.optional?_of_found hRules
            rintro json low ⟨items, rfl, forms⟩
            simp only [Json.height] at low
            exact Rule.mapM_of_formsAll manner fuel rules items forms (by omega)
          have hOrder := Json.optional?_plain hOrder (RuleOrder.nullable?_toJson manner order)
          have hExit := Json.optional?_plain hExit (ExitCondition.read?_toJson manner exit)
          have hFocus := Json.optional?_plain hFocus (FocusMethod.read?_toJson manner focus)
          have hAnonymous : Json.optional? false Json.bool? anonymous? = some anonymous :=
            Json.optional?_plain hAnonymous rfl
          have hBeliefs := Term.listField?_of_found manner hBeliefs
          have hGoals := Term.listField?_of_found manner hGoals
          have hStrategy := Json.optional?_plain hStrategy (Strategy.read?_toJson manner strategy)
          have hSource := Location.field?_of_found hSource
          simp [Module.decode?, taken, hName, hParameters, hRules, hOrder, hExit, hFocus,
            hAnonymous, hBeliefs, hGoals, hStrategy, hSource]

end

private theorem Action.itemwise_of_formsAll : (actions : List Action) → (items : List Json) →
    Action.FormsAll actions items → Json.Itemwise Action.Forms actions items
  | [], [], _ => trivial
  | _ :: actions, _ :: items, ⟨form, forms⟩ => ⟨form, itemwise_of_formsAll actions items forms⟩

private theorem Action.ofJson?_of_forms (a : Action) (json : Json) (form : a.Forms json) :
    ofJson? json = some a :=
  decode?_of_forms .strict _ a json form (Nat.lt_succ_self _)

private theorem Rule.ofJson?_of_forms (rule : Rule) (json : Json) (form : rule.Forms json) :
    ofJson? json = some rule :=
  decode?_of_forms .strict _ rule json form (Nat.lt_succ_self _)

private theorem Module.ofJson?_of_forms (m : Module) (json : Json) (form : m.Forms json) :
    ofJson? json = some m :=
  decode?_of_forms .strict _ m json form (Nat.lt_succ_self _)

namespace Combo

def Forms (combo : Combo) : Json → Prop := ArrayWith (Action.FormsAll combo)

private theorem forms_toJson (combo : Combo) : Forms combo (toJson combo) :=
  ⟨_, rfl, Action.formsAll_toJsonAll combo⟩

private theorem ofJson?_of_forms (combo : Combo) (json : Json) (form : Forms combo json) :
    ofJson? json = some combo := by
  obtain ⟨items, rfl, forms⟩ := form
  exact (Action.itemwise_of_formsAll combo items forms).mapM Action.ofJson?_of_forms

end Combo

namespace Definition

def Forms (d : Definition) : Json → Prop :=
  RecordOf [⟨"modules", False, ArrayWith (Json.Itemwise Module.Forms d.modules)⟩,
    .plain "init" (d.init = none) (.ofOption .string d.init),
    .plain "main" (d.main = none) (.ofOption .string d.main),
    .plain "event" (d.event = none) (.ofOption .string d.event),
    .plain "shutdown" (d.shutdown = none) (.ofOption .string d.shutdown)]

private theorem forms_toJson (d : Definition) : d.Forms d.toJson :=
  .kept ⟨_, rfl, Json.itemwise_map Module.forms_toJson d.modules⟩
    (.kept rfl (.kept rfl (.kept rfl (.kept rfl .done))))

private theorem role?_of_found {role : Option String} {name : String} {height : Nat}
    {found : Option Json}
    (shape : (Json.Field.plain name (role = none) (.ofOption .string role)).Found height found) :
    role? found = some role := by
  apply Json.optional?_plain shape
  apply Json.nullable?_ofOption
  · exact fun text => rfl
  · exact fun text => Json.noConfusion

private theorem ofJson?_of_forms (d : Definition) (json : Json) (form : d.Forms json) :
    ofJson? json = some d := by
  obtain ⟨found, taken, shape⟩ :=
    RecordOf.fields? form ["modules", "init", "main", "event", "shutdown"] (by decide) rfl
  match found, shape with
  | [modules, init, main, event, shutdown], ⟨hModules, hInit, hMain, hEvent, hShutdown, _⟩ =>
      have hModules := Json.required?_of_found hModules fun json _ formed =>
        ArrayWith.list? formed Module.ofJson?_of_forms
      have hInit := role?_of_found hInit
      have hMain := role?_of_found hMain
      have hEvent := role?_of_found hEvent
      have hShutdown := role?_of_found hShutdown
      simp [ofJson?, taken, hModules, hInit, hMain, hEvent, hShutdown]

end Definition

def RoundTrips {α : Type} (encode : α → Json) (decode : Json → Option α)
    (Forms : α → Json → Prop) : Prop :=
  ∀ value, decode (encode value) = some value ∧ Forms value (encode value) ∧
    ∀ json, Forms value json → decode json = decode (encode value)

private theorem RoundTrips.of_forms {α : Type} {encode : α → Json} {decode : Json → Option α}
    {Forms : α → Json → Prop} (encoded : ∀ value, Forms value (encode value))
    (decoded : ∀ value json, Forms value json → decode json = some value) :
    RoundTrips encode decode Forms := by
  intro value
  have back : decode (encode value) = some value := decoded value _ (encoded value)
  refine ⟨back, encoded value, ?_⟩
  intro json form
  rw [back, decoded value json form]

/-- Programs and their parts go to JSON and back. What is decoded stays the same when fields with
their declared defaults are left out, at any depth. -/
theorem json_round_trip :
    RoundTrips Definition.toJson Definition.ofJson? Definition.Forms ∧
      RoundTrips Module.toJson Module.ofJson? Module.Forms ∧
      RoundTrips Rule.toJson Rule.ofJson? Rule.Forms ∧
      RoundTrips Combo.toJson Combo.ofJson? Combo.Forms ∧
      RoundTrips Action.toJson Action.ofJson? Action.Forms ∧
      RoundTrips Condition.toJson Condition.ofJson? Condition.Forms ∧
      RoundTrips Literal.toJson Literal.ofJson? Literal.Forms ∧
      (∀ e : Effect, Effect.ofJson? e.toJson = some e) ∧
      (∀ k : RuleKind, RuleKind.ofJson? k.toJson = some k) ∧
      (∀ t : Term, Term.ofJson? t.toJson = some t) ∧
      (∀ s : Substitution, Substitution.ofJson? s.toJson = some s) :=
  ⟨.of_forms Definition.forms_toJson Definition.ofJson?_of_forms,
    .of_forms Module.forms_toJson Module.ofJson?_of_forms,
    .of_forms Rule.forms_toJson Rule.ofJson?_of_forms,
    .of_forms Combo.forms_toJson Combo.ofJson?_of_forms,
    .of_forms Action.forms_toJson Action.ofJson?_of_forms,
    .of_forms Condition.forms_toJson (Condition.read?_of_forms .strict),
    .of_forms Literal.forms_toJson (Literal.read?_of_forms .strict),
    Effect.read?_toJson .strict, RuleKind.read?_toJson .strict, Term.read?_toJson .strict,
    Substitution.ofJson?_toJson⟩

def Definition.inAndOut : Definition :=
  { modules := [{ Module.ofName "main" with rules := [Rule.ofKind .ifThen .always
      [Action.nested (Module.unnamed "hall" [Rule.ofKind .ifThen .always [.exitModule]])]] }],
    main := some "main" }

/-- The same program with every field left out that may be. -/
def Definition.inAndOutBare : Json :=
  let leave := Json.object [("action", .array [.tagged "Mental" (.object [("t", .string "Exit")])])]
  let hall := Json.object [("name", .string "hall"), ("rules", .array [leave]),
    ("anonymous", .bool true)]
  let enter := Json.object [("action", .array
    [.tagged "ModuleCall" (.object [("target", .tagged "Anonymous" hall)])])]
  .object [("modules", .array [.object [("name", .string "main"), ("rules", .array [enter])]]),
    ("main", .string "main")]

private theorem Definition.inAndOut_forms : inAndOut.Forms inAndOutBare := by
  refine .kept ⟨_, rfl, ?_, trivial⟩ (.leftOut rfl (.kept rfl (.leftOut rfl (.leftOut rfl .done))))
  refine .kept rfl (.leftOut rfl (.kept ⟨_, rfl, ?_, trivial⟩ ?_))
  · refine .leftOut rfl (.leftOut rfl (.kept ⟨_, rfl, ?_, trivial⟩ (.leftOut rfl .done)))
    refine ⟨_, rfl, .kept ⟨_, rfl, ?_⟩ (.leftOut rfl (.leftOut rfl .done))⟩
    refine .kept rfl (.leftOut rfl (.kept ⟨_, rfl, ?_, trivial⟩ ?_))
    · exact .leftOut rfl (.leftOut rfl (.kept ⟨_, rfl, ⟨_, rfl, rfl⟩, trivial⟩ (.leftOut rfl .done)))
    · exact .leftOut rfl (.leftOut rfl (.leftOut rfl (.kept rfl (.leftOut rfl (.leftOut rfl
        (.leftOut rfl (.leftOut rfl .done)))))))
  · exact .leftOut rfl (.leftOut rfl (.leftOut rfl (.leftOut rfl (.leftOut rfl (.leftOut rfl
      (.leftOut rfl (.leftOut rfl .done)))))))

theorem json_round_trip_of_inAndOut :
    Definition.ofJson? Definition.inAndOutBare = some Definition.inAndOut := by
  have trip := json_round_trip.1 Definition.inAndOut
  rw [trip.2.2 Definition.inAndOutBare Definition.inAndOut_forms, trip.1]

end CognitiveAgent
