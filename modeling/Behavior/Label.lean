import Behavior.Text.Record
/-!
# Labels

The name and the textual parameters that a node, a condition or a filter is shown under.
-/

namespace Behavior

/-- A display name with parameters. -/
structure Label where
  name : String
  parameters : String := ""
  deriving DecidableEq, Repr, Inhabited

/-- The name, followed by the parameters in braces when there are any. -/
def Label.text (l : Label) : String :=
  if l.parameters.isEmpty then l.name else l.name ++ "\x7b" ++ l.parameters ++ "\x7d"

end Behavior
