/-!
# Texts of records, lists and sets

The one-line texts in which structured values are shown.
-/

namespace Behavior.Text

/-- `Name { field: value, … }`. -/
def record (name : String) (fields : List (String × String)) : String :=
  name ++ " \x7b " ++ String.intercalate ", " (fields.map fun (k, v) => k ++ ": " ++ v) ++ " \x7d"

/-- `[item, …]`. -/
def list (items : List String) : String := "[" ++ String.intercalate ", " items ++ "]"

/-- The items between braces. -/
def set (items : List String) : String := "\x7b" ++ String.intercalate ", " items ++ "\x7d"

/-- A truth value in lower case. -/
def bool (b : Bool) : String := if b then "true" else "false"

/-- A value that may be absent. -/
def option {α : Type} (render : α → String) : Option α → String
  | none => "None"
  | some a => "Some(" ++ render a ++ ")"

end Behavior.Text
