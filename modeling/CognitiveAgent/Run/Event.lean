import CognitiveAgent.Program.Module
import CognitiveAgent.Text.Template

/-!
Events: what a running agent reports of its doings, on named channels.
-/

set_option autoImplicit false

namespace CognitiveAgent

inductive Channel where
  | moduleEntry
  | moduleExit
  | cycle
  | ruleCondition
  | ruleFired
  | actionPrecondition
  | userAction
  | mentalAction
  | callModule
  | plan
  | learner
deriving DecidableEq

def Channel.name : Channel → String
  | .moduleEntry => "module-entry"
  | .moduleExit => "module-exit"
  | .cycle => "cycle"
  | .ruleCondition => "rule-condition"
  | .ruleFired => "rule-fired"
  | .actionPrecondition => "action-precondition"
  | .userAction => "action-userspec"
  | .mentalAction => "action-builtin"
  | .callModule => "call-module"
  | .plan => "plan"
  | .learner => "learner"

structure Event where
  channel : Channel
  subject : String
  source : Option Location
  template : String
  arguments : List String

def Event.message (e : Event) : String := Text.render e.template e.arguments

end CognitiveAgent
