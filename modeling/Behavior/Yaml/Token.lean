import Behavior.Yaml.Value
/-!
# Tokens

The marks and scalars of a document. Block collections, which only their indentation shows, have marks of
their own here, and every key is marked as one, so that the tokens alone say how values lie in each other.
-/

namespace Behavior.Yaml

/-- A mark or a scalar. -/
inductive Token where
  | documentStart
  | documentEnd
  | blockSequence
  | blockMapping
  | blockEnd
  /-- The dash before an item of a block sequence. -/
  | item
  /-- What announces a key, whether a question mark stands for it or not. -/
  | key
  /-- The colon before a value. -/
  | value
  | openSequence
  | closeSequence
  | openMapping
  | closeMapping
  /-- The comma between the entries of a flow collection. -/
  | separator
  /-- A scalar without quotes. -/
  | plain (text : String)
  /-- A scalar in quotes, or a block of text. -/
  | quoted (text : String)
  deriving DecidableEq, Repr, Inhabited

end Behavior.Yaml
