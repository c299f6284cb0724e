import Behavior.Text.Hex
import Behavior.Text.Hidden
/-!
# Quoted text

A text between double quotes, with quotes, backslashes and characters that would not be seen escaped, as
records show their texts.
-/

namespace Behavior.Text

def escaped (c : Char) : String :=
  match c with
  | '"' => "\\\""
  | '\\' => "\\\\"
  | '\n' => "\\n"
  | '\t' => "\\t"
  | '\r' => "\\r"
  | '\x00' => "\\0"
  | c => if isHidden c then "\\u\x7b" ++ hex c.toNat ++ "\x7d" else c.toString

def quoted (s : String) : String := "\"" ++ String.join (s.toList.map escaped) ++ "\""

end Behavior.Text
