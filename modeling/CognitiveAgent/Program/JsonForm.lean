import CognitiveAgent.Program.Definition
import CognitiveAgent.Term.JsonForm

/-!
The JSON form of programs and of all their parts. Encoding writes every field; decoding fills in
the default of a field that is left out. Each kind of value is read in a given manner; at the
top of a document that is the strict one.
-/

set_option autoImplicit false

namespace CognitiveAgent

namespace Location

def toJson (l : Location) : Json :=
  .object [("file", .string l.file), ("line", .ofNat l.line.toNat),
    ("column", .ofNat l.column.toNat)]

def word? (value : Json) : Option UInt32 := (value.natBelow? (Nat.pow 2 32)).map UInt32.ofNat

def ofJson? (value : Json) : Option Location := do
  match ← value.fields? ["file", "line", "column"] with
  | [file, line, column] =>
    return { file := ← Json.required? Json.string? file, line := ← Json.required? word? line,
             column := ← Json.required? word? column }
  | _ => none

def field? : Option Json → Option (Option Location) :=
  Json.optional? none (Json.nullable? ofJson?)

end Location

namespace Attitude

def toJson (a : Attitude) : Json := .string a.keyword

def read? : Json.Manner → Json → Option Attitude := Json.oneOf? all keyword

def ofJson? : Json → Option Attitude := read? .strict

end Attitude

namespace RuleOrder

def toJson (o : RuleOrder) : Json := .string o.keyword

def read? : Json.Manner → Json → Option RuleOrder := Json.oneOf? all keyword

def ofJson? : Json → Option RuleOrder := read? .strict

end RuleOrder

namespace ExitCondition

def toJson (e : ExitCondition) : Json := .string e.keyword

def read? : Json.Manner → Json → Option ExitCondition := Json.oneOf? all keyword

def ofJson? : Json → Option ExitCondition := read? .strict

end ExitCondition

namespace FocusMethod

def toJson (f : FocusMethod) : Json := .string f.keyword

def read? : Json.Manner → Json → Option FocusMethod := Json.oneOf? all keyword

def ofJson? : Json → Option FocusMethod := read? .strict

end FocusMethod

namespace Strategy

def toJson (s : Strategy) : Json := .string s.keyword

def read? : Json.Manner → Json → Option Strategy := Json.oneOf? all keyword

def ofJson? : Json → Option Strategy := read? .strict

end Strategy

namespace Literal

def toJson (l : Literal) : Json :=
  .object [("positive", .bool l.positive), ("kind", l.attitude.toJson),
    ("formula", l.formula.toJson)]

def read? (manner : Json.Manner) (value : Json) : Option Literal := do
  match ← value.fields? ["positive", "kind", "formula"] with
  | [positive, kind, formula] =>
    return { positive := ← Json.optional? true Json.bool? positive,
             attitude := ← Json.required? (Attitude.read? manner) kind,
             formula := ← Json.required? (Term.read? manner) formula }
  | _ => none

def ofJson? : Json → Option Literal := read? .strict

end Literal

namespace Condition

def toJson (c : Condition) : Json := .ofList Literal.toJson c.literals

def read? (manner : Json.Manner) (value : Json) : Option Condition := do
  return ⟨← value.list? (Literal.read? manner)⟩

def ofJson? : Json → Option Condition := read? .strict

end Condition

namespace Effect

def toJson : Effect → Json
  | .insert belief => .tagged "Insert" belief.toJson
  | .delete belief => .tagged "Delete" belief.toJson

def tags : List String := ["Insert", "Delete"]

def read? (manner : Json.Manner) (value : Json) : Option Effect := do
  match ← value.variant? tags manner with
  | ⟨"Insert", manner, some content⟩ => return .insert (← Term.read? manner content)
  | ⟨"Delete", manner, some content⟩ => return .delete (← Term.read? manner content)
  | _ => none

def ofJson? : Json → Option Effect := read? .strict

end Effect

def Term.listField? (manner : Json.Manner) : Option Json → Option (List Term) :=
  Json.optional? [] (Json.list? (Term.read? manner))

namespace UserAction

def toJson (a : UserAction) : Json :=
  .object [("name", .string a.name), ("params", .ofList Term.toJson a.params),
    ("pre", a.pre.toJson), ("post", .ofList Effect.toJson a.post),
    ("source", .ofOption Location.toJson a.source)]

def read? (manner : Json.Manner) (value : Json) : Option UserAction := do
  match ← value.fields? ["name", "params", "pre", "post", "source"] with
  | [name, params, pre, post, source] =>
    return { name := ← Json.required? Json.string? name,
             params := ← Term.listField? manner params,
             pre := ← Json.optional? .always (Condition.read? manner) pre,
             post := ← Json.optional? [] (Json.list? (Effect.read? manner)) post,
             source := ← Location.field? source }
  | _ => none

end UserAction

namespace MentalAction

def toJson : MentalAction → Json
  | .insert belief => .tagged "Insert" belief.toJson
  | .delete belief => .tagged "Delete" belief.toJson
  | .adopt goal => .tagged "Adopt" goal.toJson
  | .drop goal => .tagged "Drop" goal.toJson
  | .exit => .object [("t", .string "Exit")]
  | .log term => .tagged "Log" term.toJson

def tags : List String := ["Insert", "Delete", "Adopt", "Drop", "Exit", "Log"]

def read? (manner : Json.Manner) (value : Json) : Option MentalAction := do
  match ← value.variant? tags manner with
  | ⟨"Insert", manner, some content⟩ => return .insert (← Term.read? manner content)
  | ⟨"Delete", manner, some content⟩ => return .delete (← Term.read? manner content)
  | ⟨"Adopt", manner, some content⟩ => return .adopt (← Term.read? manner content)
  | ⟨"Drop", manner, some content⟩ => return .drop (← Term.read? manner content)
  | ⟨"Exit", _, none⟩ | ⟨"Exit", _, some .null⟩ => return .exit
  | ⟨"Log", manner, some content⟩ => return .log (← Term.read? manner content)
  | _ => none

end MentalAction

namespace RuleKind

/-- The tag stands among the fields. -/
def toJson : RuleKind → Json
  | .ifThen => .object [("t", .string "IfThen")]
  | .forallDo => .object [("t", .string "ForallDo")]
  | .listallDo name => .object [("t", .string "ListallDo"), ("var", .string name)]

def ofTag? (tag : String) (name : Option Json) : Option RuleKind :=
  match tag with
  | "IfThen" => some .ifThen
  | "ForallDo" => some .forallDo
  | "ListallDo" => do return .listallDo (← Json.required? Json.string? name)
  | _ => none

def tags : List String := ["IfThen", "ForallDo", "ListallDo"]

/-- All fields are set aside until the tag is known, so all of them must be usable. -/
def read? (manner : Json.Manner) : Json → Option RuleKind
  | .object members => do
    let tag ← Json.required? (Json.tag? tags manner) (← Json.member? members "t")
    let others := members.filter (·.1 != "t")
    if Json.allMembersUsable others then
      match tag with
      | "ListallDo" => ofTag? tag (← Json.member? others "var")
      | _ => ofTag? tag none
    else none
  | .array [tag] => do
    match ← tag.tag? tags manner with
    | "ListallDo" => none
    | name => ofTag? name none
  | .array [tag, name] => do
    match ← tag.tag? tags manner with
    | "ListallDo" => ofTag? "ListallDo" (some name)
    | _ => none
  | _ => none

def ofJson? : Json → Option RuleKind := read? .strict

end RuleKind

mutual

def Action.toJson : Action → Json
  | .user action => .tagged "UserSpec" action.toJson
  | .call target params source =>
    .tagged "ModuleCall" (.object [("target", CallTarget.toJson target),
      ("params", .ofList Term.toJson params), ("source", .ofOption Location.toJson source)])
  | .mental action => .tagged "Mental" action.toJson

def CallTarget.toJson : CallTarget → Json
  | .named name => .tagged "Named" (.string name)
  | .inPlace body => .tagged "Anonymous" (Module.toJson body)

def Action.toJsonAll : List Action → List Json
  | [] => []
  | action :: actions => Action.toJson action :: Action.toJsonAll actions

def Rule.toJson : Rule → Json
  | ⟨kind, condition, combo, source⟩ =>
    .object [("kind", kind.toJson), ("condition", condition.toJson),
      ("action", .array (Action.toJsonAll combo)), ("source", .ofOption Location.toJson source)]

def Rule.toJsonAll : List Rule → List Json
  | [] => []
  | rule :: rules => Rule.toJson rule :: Rule.toJsonAll rules

def Module.toJson : Module → Json
  | ⟨name, parameters, rules, order, exit, focus, anonymous, beliefs, goals, strategy, source⟩ =>
    .object [("name", .string name), ("parameters", .ofList Term.toJson parameters),
      ("rules", .array (Rule.toJsonAll rules)), ("order", .ofOption RuleOrder.toJson order),
      ("exit", exit.toJson), ("focus", focus.toJson), ("anonymous", .bool anonymous),
      ("beliefs", .ofList Term.toJson beliefs), ("goals", .ofList Term.toJson goals),
      ("strategy", strategy.toJson), ("source", .ofOption Location.toJson source)]

end

def Action.tags : List String := ["UserSpec", "ModuleCall", "Mental"]

def CallTarget.tags : List String := ["Named", "Anonymous"]

mutual

/-- Decodes an action of at most `fuel` levels. -/
def Action.decode? : Nat → Json.Manner → Json → Option Action
  | 0, _, _ => none
  | fuel + 1, manner, value => do
    match ← value.variant? Action.tags manner with
    | ⟨"UserSpec", manner, some content⟩ => return .user (← UserAction.read? manner content)
    | ⟨"ModuleCall", manner, some content⟩ =>
      match ← content.fields? ["target", "params", "source"] with
      | [target, params, source] =>
        return .call (← Json.required? (CallTarget.decode? fuel manner) target)
          (← Term.listField? manner params) (← Location.field? source)
      | _ => none
    | ⟨"Mental", manner, some content⟩ => return .mental (← MentalAction.read? manner content)
    | _ => none

def CallTarget.decode? : Nat → Json.Manner → Json → Option CallTarget
  | 0, _, _ => none
  | fuel + 1, manner, value => do
    match ← value.variant? CallTarget.tags manner with
    | ⟨"Named", _, some content⟩ => return .named (← content.string?)
    | ⟨"Anonymous", manner, some content⟩ => return .inPlace (← Module.decode? fuel manner content)
    | _ => none

def Rule.decode? : Nat → Json.Manner → Json → Option Rule
  | 0, _, _ => none
  | fuel + 1, manner, value => do
    match ← value.fields? ["kind", "condition", "action", "source"] with
    | [kind, condition, combo, source] =>
      return { kind := ← Json.optional? .ifThen (RuleKind.read? manner) kind,
               condition := ← Json.optional? .always (Condition.read? manner) condition,
               combo := ← Json.required? (Json.list? (Action.decode? fuel manner)) combo,
               source := ← Location.field? source }
    | _ => none

def Module.decode? : Nat → Json.Manner → Json → Option Module
  | 0, _, _ => none
  | fuel + 1, manner, value => do
    match ← value.fields? ["name", "parameters", "rules", "order", "exit", "focus", "anonymous",
        "beliefs", "goals", "strategy", "source"] with
    | [name, parameters, rules, order, exit, focus, anonymous, beliefs, goals, strategy, source] =>
      return { name := ← Json.required? Json.string? name,
               parameters := ← Term.listField? manner parameters,
               rules := ← Json.optional? [] (Json.list? (Rule.decode? fuel manner)) rules,
               order := ← Json.optional? none (Json.nullable? (RuleOrder.read? manner)) order,
               exit := ← Json.optional? .always (ExitCondition.read? manner) exit,
               focus := ← Json.optional? .none (FocusMethod.read? manner) focus,
               anonymous := ← Json.optional? false Json.bool? anonymous,
               beliefs := ← Term.listField? manner beliefs,
               goals := ← Term.listField? manner goals,
               strategy := ← Json.optional? .linear (Strategy.read? manner) strategy,
               source := ← Location.field? source }
    | _ => none

end

def Action.ofJson? (value : Json) : Option Action := Action.decode? (value.height + 1) .strict value

def Combo.ofJson? : Json → Option Combo := Json.list? Action.ofJson?

def Combo.toJson (combo : Combo) : Json := .array (Action.toJsonAll combo)

def Rule.ofJson? (value : Json) : Option Rule := Rule.decode? (value.height + 1) .strict value

def Module.ofJson? (value : Json) : Option Module := Module.decode? (value.height + 1) .strict value

namespace Definition

def toJson (d : Definition) : Json :=
  .object [("modules", .array (d.modules.map Module.toJson)), ("init", .ofOption .string d.init),
    ("main", .ofOption .string d.main), ("event", .ofOption .string d.event),
    ("shutdown", .ofOption .string d.shutdown)]

def role? : Option Json → Option (Option String) :=
  Json.optional? none (Json.nullable? Json.string?)

def ofJson? (value : Json) : Option Definition := do
  match ← value.fields? ["modules", "init", "main", "event", "shutdown"] with
  | [modules, init, main, event, shutdown] =>
    return { modules := ← Json.required? (Json.list? Module.ofJson?) modules,
             init := ← role? init, main := ← role? main, event := ← role? event,
             shutdown := ← role? shutdown }
  | _ => none

end Definition

end CognitiveAgent
