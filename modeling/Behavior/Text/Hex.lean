/-!
# Hexadecimal numbers
-/

namespace Behavior.Text

/-- The digits in ascending order. -/
def hexDigits : List Char :=
  ['0', '1', '2', '3', '4', '5', '6', '7', '8', '9', 'a', 'b', 'c', 'd', 'e', 'f']

/-- The lower-case digit of a number below sixteen. -/
def hexDigit (n : Nat) : Char := hexDigits.getD n '0'

/-- The value of a digit in either case. -/
def hexValue? (c : Char) : Option Nat := hexDigits.idxOf? c.toLower

/-- A number in lower-case hexadecimal. -/
def hex (n : Nat) : String := String.ofList (Nat.toDigits 16 n)

/-- A number in hexadecimal behind its mark. -/
def hexMarked (n : Nat) : String := "0x" ++ hex n

/-- The bytes that pairs of digits write; a sign that is no digit counts as zero. -/
def bytes : List Char → List UInt8
  | a :: b :: rest => UInt8.ofNat (16 * (hexValue? a).getD 0 + (hexValue? b).getD 0) :: bytes rest
  | _ => []

end Behavior.Text
