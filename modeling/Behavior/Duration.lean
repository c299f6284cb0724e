/-!
# Durations

Lengths of time in whole nanoseconds, and their short text: the greatest unit that is not zero, with as
many decimal places as the value needs.
-/

namespace Behavior

/-- A length of time. -/
structure Duration where
  nanos : Nat
  deriving DecidableEq, Repr

namespace Duration

def ofMillis (n : Nat) : Duration := ⟨n * 1000000⟩

def ofMicros (n : Nat) : Duration := ⟨n * 1000⟩

def max (a b : Duration) : Duration := ⟨Nat.max a.nanos b.nanos⟩

instance : Add Duration := ⟨fun a b => ⟨a.nanos + b.nanos⟩⟩

/-- The digits of a decimal fraction `part / 10 ^ places` without trailing zeros. -/
def fraction : (places : Nat) → (part : Nat) → String
  | 0, _ => ""
  | places + 1, part =>
    if part = 0 then ""
    else toString (part / Nat.pow 10 places) ++ fraction places (part % Nat.pow 10 places)

/-- A count of a unit of `10 ^ places` nanoseconds, with its fraction and the unit's name. -/
def inUnit (nanos places : Nat) (unit : String) : String :=
  let rest := fraction places (nanos % Nat.pow 10 places)
  toString (nanos / Nat.pow 10 places) ++ (if rest.isEmpty then "" else "." ++ rest) ++ unit

def text (d : Duration) : String :=
  if 1000000000 ≤ d.nanos then inUnit d.nanos 9 "s"
  else if 1000000 ≤ d.nanos then inUnit d.nanos 6 "ms"
  else if 1000 ≤ d.nanos then inUnit d.nanos 3 "µs"
  else inUnit d.nanos 0 "ns"

end Duration

end Behavior
