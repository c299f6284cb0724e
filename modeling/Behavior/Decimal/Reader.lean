import Behavior.Decimal.Natural
/-!
# Reading single-precision numbers

Decimal numbers with an optional sign, point and exponent, and the words for infinity and for no number,
in any case. The value is the nearest single-precision number, a tie going to the even one.
-/

namespace Behavior.Decimal

/-- A decimal number `digits · 10 ^ exponent`. -/
structure Scaled where
  digits : Nat
  exponent : Int
  deriving DecidableEq, Repr

/-- Splits a text into its leading digits and the rest. -/
def splitDigits (cs : List Char) : List Char × List Char := cs.span Char.isDigit

/-- Reads a whole number with an optional sign. -/
def integer? : List Char → Option Int
  | '-' :: rest => (digits? rest).map fun n => -(n : Int)
  | '+' :: rest => (digits? rest).map Int.ofNat
  | cs => (digits? cs).map Int.ofNat

/-- Reads the exponent that may end a number. -/
def exponent? : List Char → Option Int
  | [] => some 0
  | 'e' :: rest | 'E' :: rest => integer? rest
  | _ => none

/-- Reads an unsigned number: digits before the point, after it, or both, and an exponent. -/
def scaled? (cs : List Char) : Option Scaled :=
  let (whole, rest) := splitDigits cs
  let (fraction, rest) := match rest with
    | '.' :: rest => splitDigits rest
    | rest => ([], rest)
  if whole.isEmpty && fraction.isEmpty then none
  else (exponent? rest).map fun e =>
    { digits := value (whole ++ fraction), exponent := e - fraction.length }

def infinity : Float32 := Float32.ofBits 0x7F800000

/-- The nearest single-precision number. Magnitudes of `10 ^ 60` and more, and below `10 ^ -60`, are out
of reach. -/
def Scaled.nearest (s : Scaled) : Float32 :=
  let magnitude : Int := s.exponent + (toString s.digits).length
  if s.digits = 0 || magnitude < -60 then 0
  else if 60 < magnitude then infinity
  else Float32.ofScientific s.digits (s.exponent < 0) s.exponent.natAbs

/-- Reads an unsigned number or a word for a special value. -/
def unsigned? (cs : List Char) : Option Float32 :=
  match scaled? cs with
  | some s => some s.nearest
  | none =>
    let word := String.ofList (cs.map Char.toLower)
    if word = "nan" then some (Float32.ofBits 0x7FC00000)
    else if word = "inf" || word = "infinity" then some infinity
    else none

/-- Reads a single-precision number. -/
def single? : List Char → Option Float32
  | '-' :: rest => (unsigned? rest).map (- ·)
  | '+' :: rest => unsigned? rest
  | cs => unsigned? cs

end Behavior.Decimal
