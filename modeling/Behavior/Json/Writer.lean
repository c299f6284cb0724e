import Behavior.Json.Text
import Behavior.Json.Value
/-!
# Writing JSON

The compact form: no blanks, and fields in the order given.
-/

namespace Behavior.Json

/-- A text that is absent is written empty. -/
def writeText (s : Option String) : List Char := quote (s.getD "")

mutual

/-- The compact form of a value. -/
def write : Json → List Char
  | .null => ['n', 'u', 'l', 'l']
  | .bool true => ['t', 'r', 'u', 'e']
  | .bool false => ['f', 'a', 'l', 's', 'e']
  | .natural n => Nat.toDigits 10 n
  | .numeral literal => literal
  | .text s => writeText s
  | .array items => '[' :: (writeItems items ++ [']'])
  | .object fields => '\x7b' :: (writeFields fields ++ ['\x7d'])

def writeItems : List Json → List Char
  | [] => []
  | [v] => write v
  | v :: w :: vs => write v ++ ',' :: writeItems (w :: vs)

def writeFields : List (Option String × Json) → List Char
  | [] => []
  | [(k, v)] => writeText k ++ ':' :: write v
  | (k, v) :: f :: fs => writeText k ++ ':' :: (write v ++ ',' :: writeFields (f :: fs))

end

def render (v : Json) : String := String.ofList (write v)

end Behavior.Json
