/-!
Sets of characters as ranges of code points.
-/

set_option autoImplicit false

namespace CognitiveAgent.Text

abbrev CodeRanges := List (Nat × Nat)

def CodeRanges.hold (ranges : CodeRanges) (c : Char) : Bool :=
  ranges.any fun range => range.1 ≤ c.toNat && c.toNat ≤ range.2

end CognitiveAgent.Text
