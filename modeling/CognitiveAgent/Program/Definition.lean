import CognitiveAgent.Program.Module

/-!
Definitions of agent programs, and the programs they define. A definition lists modules and
names some of them for a role. It makes a program if every rule has an action, the names of the
listed modules differ and every role names one of them.
-/

set_option autoImplicit false

namespace CognitiveAgent

inductive Role where
  | init
  | main
  | event
  | shutdown
deriving DecidableEq, Inhabited

def Role.keyword : Role → String
  | .init => "init"
  | .main => "main"
  | .event => "event"
  | .shutdown => "shutdown"

structure Definition where
  modules : List Module
  init : Option String := none
  main : Option String := none
  event : Option String := none
  shutdown : Option String := none

namespace Definition

def empty : Definition := { modules := [] }

def named (d : Definition) : Role → Option String
  | .init => d.init
  | .main => d.main
  | .event => d.event
  | .shutdown => d.shutdown

def add (d : Definition) (m : Module) : Definition := { d with modules := d.modules ++ [m] }

def addFor (d : Definition) (role : Role) (m : Module) : Definition :=
  match role with
  | .init => { d.add m with init := some m.name }
  | .main => { d.add m with main := some m.name }
  | .event => { d.add m with event := some m.name }
  | .shutdown => { d.add m with shutdown := some m.name }

end Definition

inductive ProgramError where
  | duplicateModule (name : String)
  | unknownRoleModule (role : Role) (name : String)
  | emptyCombo (module : String) (rule : Nat)
deriving DecidableEq

def ProgramError.message : ProgramError → String
  | .duplicateModule name => "module " ++ name ++ " is defined more than once"
  | .unknownRoleModule role name => role.keyword ++ " module " ++ name ++ " is not defined"
  | .emptyCombo module rule =>
    "rule " ++ toString rule ++ " of module " ++ module ++ " has no actions"

mutual

/-- The first rule without actions in a module or in a module written out inside it, as the name
of the module that holds the rule and its position there. A rule comes before the modules inside
its actions, and those before the next rule. -/
def Module.emptyCombo? : Module → Option (String × Nat)
  | ⟨name, _, rules, _, _, _, _, _, _, _, _⟩ => Rule.emptyComboFrom? name 0 rules

def Rule.emptyComboFrom? (name : String) (index : Nat) : List Rule → Option (String × Nat)
  | [] => none
  | rule :: rules =>
    match Rule.emptyCombo? name index rule with
    | some found => some found
    | none => Rule.emptyComboFrom? name (index + 1) rules

def Rule.emptyCombo? (name : String) (index : Nat) : Rule → Option (String × Nat)
  | ⟨_, _, combo, _⟩ => if combo.isEmpty then some (name, index) else Action.emptyComboIn? combo

def Action.emptyComboIn? : List Action → Option (String × Nat)
  | [] => none
  | action :: actions =>
    match Action.emptyCombo? action with
    | some found => some found
    | none => Action.emptyComboIn? actions

def Action.emptyCombo? : Action → Option (String × Nat)
  | .call target _ _ => CallTarget.emptyCombo? target
  | .user _ | .mental _ => none

def CallTarget.emptyCombo? : CallTarget → Option (String × Nat)
  | .named _ => none
  | .inPlace body => Module.emptyCombo? body

end

structure Program where
  modules : List Module
  init : Option Module
  main : Option Module
  event : Option Module
  shutdown : Option Module

namespace Program

/-- Accepts the modules one after the other; `accepted` holds those before them. -/
def accept (accepted : List Module) : List Module → Except ProgramError (List Module)
  | [] => .ok accepted
  | m :: rest =>
    match m.emptyCombo? with
    | some (module, rule) => .error (.emptyCombo module rule)
    | none =>
      if accepted.any (·.name == m.name) then .error (.duplicateModule m.name)
      else accept (accepted ++ [m]) rest

def find? (modules : List Module) (name : String) : Option Module :=
  modules.find? (·.name == name)

/-- The module of a role, which must be one of the listed modules if it is named at all. -/
def appoint (d : Definition) (modules : List Module) (role : Role) :
    Except ProgramError (Option Module) :=
  match d.named role with
  | none => .ok none
  | some name =>
    match find? modules name with
    | some m => .ok (some m)
    | none => .error (.unknownRoleModule role name)

def ofDefinition (d : Definition) : Except ProgramError Program := do
  let modules ← accept [] d.modules
  let init ← appoint d modules .init
  let main ← appoint d modules .main
  let event ← appoint d modules .event
  let shutdown ← appoint d modules .shutdown
  return { modules, init, main, event, shutdown }

def module? (p : Program) (name : String) : Option Module := find? p.modules name

end Program

end CognitiveAgent
