/-!
# YAML values

The values that a YAML document can hold, without references, tags and directives.
-/

namespace Behavior

inductive Yaml where
  /-- A scalar without quotes; its text may stand for a number, a truth value or nothing. -/
  | plain (text : String)
  /-- A scalar in quotes, or a block of text. -/
  | quoted (text : String)
  | sequence (items : List Yaml)
  | mapping (fields : List (Yaml × Yaml))
  deriving Repr, Inhabited

namespace Yaml

/-- A value that was left out. -/
def empty : Yaml := .plain ""

def text? : Yaml → Option String
  | .plain s | .quoted s => some s
  | _ => none

end Yaml

end Behavior
