/-!
# The shortest decimal text of a single-precision number

A finite number stands for every real that rounds to it. Its text shows the shortest decimal among those,
and the nearest of the shortest ones; of two equally near the greater. The text never has an exponent.
-/

namespace Behavior.Decimal

/-- A positive finite number as `mantissa · 2 ^ (scale - 149)`. -/
structure Binary where
  mantissa : Nat
  scale : Nat
  deriving DecidableEq, Repr

def leading : Nat := 0x800000

def signBit : Nat := 0x80000000

/-- The magnitude behind the 31 low bits of a finite number. -/
def Binary.ofBits (bits : Nat) : Binary :=
  let exponent := bits / leading % 256
  let fraction := bits % leading
  if exponent = 0 then ⟨fraction, 0⟩ else ⟨leading + fraction, exponent - 1⟩

/-- The reals that round to a number, counted in quarters of the least magnitude: `low` and `high` are
the ends, which belong to the interval when `closed`. -/
structure Interval where
  value : Nat
  low : Nat
  high : Nat
  closed : Bool

/-- Numbers below a power of two lie twice as close as those above it. -/
def Binary.interval (b : Binary) : Interval where
  value := 4 * b.mantissa * Nat.pow 2 b.scale
  low := if b.mantissa = leading && b.scale ≠ 0 then (4 * b.mantissa - 1) * Nat.pow 2 b.scale
    else (4 * b.mantissa - 2) * Nat.pow 2 b.scale
  high := (4 * b.mantissa + 2) * Nat.pow 2 b.scale
  closed := b.mantissa % 2 == 0

/-- The interval in a finer unit. -/
def Interval.scaled (i : Interval) (n : Nat) : Interval :=
  ⟨i.value * n, i.low * n, i.high * n, i.closed⟩

/-- Whether a real lies in the interval. -/
def Interval.contains (i : Interval) (x : Nat) : Bool :=
  if i.closed then i.low ≤ x && x ≤ i.high else i.low < x && x < i.high

/-- The multiple of `step` in the interval that is nearest to the value, as its factor. -/
def Interval.nearest? (i : Interval) (step : Nat) : Option Nat :=
  let below := i.value / step
  match i.contains (below * step), i.contains ((below + 1) * step) with
  | true, true => some (if 2 * (i.value % step) < step then below else below + 1)
  | true, false => some below
  | false, true => some (below + 1)
  | false, false => none

/-- The number of decimal places to which every magnitude is exact. -/
def places : Nat := 151

/-- The shortest decimal in the interval as `digits · 10 ^ (exponent - 151)`; the search goes from coarse
to fine. -/
def Interval.shortest (i : Interval) : Nat → Nat × Nat
  | 0 => ((i.scaled (Nat.pow 10 places)).value / Nat.pow 2 places, 0)
  | exponent + 1 =>
    match (i.scaled (Nat.pow 10 places)).nearest? (Nat.pow 10 (exponent + 1) * Nat.pow 2 places) with
    | some digits => (digits, exponent + 1)
    | none => i.shortest exponent

/-- The digits of `digits · 10 ^ (exponent - 151)` with a point where one is needed. -/
def positional (digits exponent : Nat) : String :=
  if places ≤ exponent then toString (digits * Nat.pow 10 (exponent - places))
  else
    let point := places - exponent
    let fraction := toString (digits % Nat.pow 10 point)
    toString (digits / Nat.pow 10 point) ++ "." ++ String.ofList (List.replicate (point - fraction.length) '0')
      ++ fraction

def text (x : Float32) : String :=
  let bits := x.toBits.toNat
  let magnitude := bits % signBit
  if 0x7F800000 < magnitude then "NaN"
  else
    let sign := if signBit ≤ bits then "-" else ""
    if magnitude = 0x7F800000 then sign ++ "inf"
    else if magnitude = 0 then sign ++ "0"
    else
      let (digits, exponent) := (Binary.ofBits magnitude).interval.shortest (places + 39)
      sign ++ positional digits exponent

end Behavior.Decimal
