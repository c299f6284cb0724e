import Behavior.Decimal.Natural
import Behavior.Json.Text
import Behavior.Json.Value
/-!
# Reading JSON

A text is the list of the characters still to be read; each reader gives a value and what follows it. A
value may have blanks around it, and nothing else may follow.
-/

namespace Behavior.Json

def isBlank (c : Char) : Bool := c == ' ' || c == '\t' || c == '\n' || c == '\r'

/-- What follows the blanks. -/
def skip (cs : List Char) : List Char := cs.dropWhile isBlank

/-- What follows at least one digit. -/
def afterDigits? (cs : List Char) : Option (List Char) :=
  let rest := cs.dropWhile Char.isDigit
  if rest.length < cs.length then some rest else none

/-- What follows the whole part of a number, which has no needless zero in front. -/
def afterWhole? : List Char → Option (List Char)
  | '0' :: rest => if (rest.head?.map Char.isDigit).getD false then none else some rest
  | cs => afterDigits? cs

/-- What follows the fraction of a number, if it has one. -/
def afterFraction? : List Char → Option (List Char)
  | '.' :: rest => afterDigits? rest
  | cs => some cs

/-- What follows the exponent of a number, if it has one. -/
def afterExponent? : List Char → Option (List Char)
  | 'e' :: rest | 'E' :: rest =>
    match rest with
    | '+' :: rest | '-' :: rest => afterDigits? rest
    | rest => afterDigits? rest
  | cs => some cs

def number? (cs : List Char) : Option (Json × List Char) := do
  let unsigned := match cs with
    | '-' :: rest => rest
    | cs => cs
  let rest ← afterExponent? (← afterFraction? (← afterWhole? unsigned))
  let literal := cs.take (cs.length - rest.length)
  return ((match Decimal.digits? literal with
    | some n => .natural n
    | none => .numeral literal), rest)

mutual

/-- Reads a value whose nesting and length the fuel covers. -/
def value? : Nat → List Char → Option (Json × List Char)
  | 0, _ => none
  | fuel + 1, cs =>
    match skip cs with
    | 'n' :: 'u' :: 'l' :: 'l' :: rest => some (.null, rest)
    | 't' :: 'r' :: 'u' :: 'e' :: rest => some (.bool true, rest)
    | 'f' :: 'a' :: 'l' :: 's' :: 'e' :: rest => some (.bool false, rest)
    | '"' :: rest => (text? rest).map fun (s, rest) => (.text s, rest)
    | '[' :: rest =>
      match skip rest with
      | ']' :: rest => some (.array [], rest)
      | _ => (items? fuel rest).map fun (vs, rest) => (.array vs, rest)
    | '\x7b' :: rest =>
      match skip rest with
      | '\x7d' :: rest => some (.object [], rest)
      | _ => (fields? fuel rest).map fun (fs, rest) => (.object fs, rest)
    | cs => number? cs

/-- Reads items up to the closing bracket, at least one. -/
def items? : Nat → List Char → Option (List Json × List Char)
  | 0, _ => none
  | fuel + 1, cs => do
    let (v, rest) ← value? fuel cs
    match skip rest with
    | ',' :: rest =>
      let (vs, rest) ← items? fuel rest
      some (v :: vs, rest)
    | ']' :: rest => some ([v], rest)
    | _ => none

/-- Reads fields up to the closing brace, at least one. -/
def fields? : Nat → List Char → Option (List (Option String × Json) × List Char)
  | 0, _ => none
  | fuel + 1, cs => do
    let '"' :: rest := skip cs | none
    let (k, rest) ← text? rest
    let ':' :: rest := skip rest | none
    let (v, rest) ← value? fuel rest
    match skip rest with
    | ',' :: rest =>
      let (fs, rest) ← fields? fuel rest
      some ((k, v) :: fs, rest)
    | '\x7d' :: rest => some ([(k, v)], rest)
    | _ => none

end

/-- Reads a text that consists of one value; each value and each list of items reads a character of its
own, so that twice the length is fuel enough. -/
def parse? (s : String) : Option Json :=
  let cs := s.toList
  match value? (2 * cs.length + 2) cs with
  | some (v, rest) => if (skip rest).isEmpty then some v else none
  | none => none

end Behavior.Json
