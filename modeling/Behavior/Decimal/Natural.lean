/-!
# Natural numbers in decimal

The one grammar of unsigned numbers in parameters: digits, with any number of leading zeros, and a plus
sign before them if one likes.
-/

namespace Behavior.Decimal

def digitValue (c : Char) : Nat := c.toNat - '0'.toNat

/-- The number that the digits continue from `n`. -/
def valueFrom (n : Nat) (cs : List Char) : Nat := cs.foldl (fun n c => 10 * n + digitValue c) n

def value (cs : List Char) : Nat := valueFrom 0 cs

/-- Whether the text consists of digits, at least one. -/
def isNumeral (cs : List Char) : Bool := !cs.isEmpty && cs.all Char.isDigit

def digits? (cs : List Char) : Option Nat := if isNumeral cs then some (value cs) else none

/-- Reads an unsigned number below the bound. -/
def natural? (bound : Nat) (cs : List Char) : Option Nat :=
  let unsigned := match cs with
    | '+' :: rest => rest
    | cs => cs
  (digits? unsigned).filter (· < bound)

end Behavior.Decimal
