/-!
Message templates. Each `%s` in a template stands for the next argument. Arguments are inserted
as they are, gaps beyond the last argument stay, and further arguments are not used.
-/

set_option autoImplicit false

namespace CognitiveAgent.Text

/-- Fills the gaps from left to right. An inserted argument is never read again. -/
def fill : List Char → List (List Char) → List Char
  | [], _ => []
  | '%' :: 's' :: rest, [] => '%' :: 's' :: fill rest []
  | '%' :: 's' :: rest, argument :: arguments => argument ++ fill rest arguments
  | c :: rest, arguments => c :: fill rest arguments

def render (template : String) (arguments : List String) : String :=
  String.ofList (fill template.toList (arguments.map String.toList))

end CognitiveAgent.Text
