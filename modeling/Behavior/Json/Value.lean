/-!
# JSON values

The values that the written forms of logs and snapshots are made of.
-/

namespace Behavior

/-- A JSON value. A text is absent when its escapes spell no Unicode text; a number is kept as a natural
number when it is written with digits only, and as it was written otherwise. -/
inductive Json where
  | null
  | bool (value : Bool)
  | natural (value : Nat)
  | numeral (literal : List Char)
  | text (value : Option String)
  | array (items : List Json)
  | object (fields : List (Option String × Json))
  deriving Repr, Inhabited

namespace Json

def ofText (s : String) : Json := .text (some s)

/-- An object whose fields have these names. -/
def record (fields : List (String × Json)) : Json := .object (fields.map fun (k, v) => (some k, v))

end Json

end Behavior
