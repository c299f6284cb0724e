import Behavior.Random.Generator
/-!
# Choice by weight

A choice falls on an index with a probability proportional to its weight. Weights are single-precision
numbers and so are the running sums.
-/

namespace Behavior

/-- Whether a weight can win at all: it is finite and greater than zero. -/
def eligible (w : Float32) : Bool := w.isFinite && 0 < w

/-- The sum of the eligible weights, added from the left. -/
def totalWeight (weights : List Float32) : Float32 := (weights.filter eligible).foldl (· + ·) 0

/-- The first eligible index whose weight exceeds what is left of the pick. Rounding can leave a sliver
past the last bucket; then the last eligible index, carried along as `last`, wins. -/
def bucket (pick : Float32) (last : Option Nat) : Nat → List Float32 → Option Nat
  | _, [] => last
  | i, w :: ws =>
    if eligible w then
      if pick < w then some i else bucket (pick - w) (some i) (i + 1) ws
    else bucket pick last (i + 1) ws

/-- An index picked by weight, or none, with nothing drawn, when no weight can win. -/
def Generator.chooseWeighted (weights : List Float32) (g : Generator) : Option Nat × Generator :=
  let total := totalWeight weights
  if total ≤ 0 then (none, g)
  else
    let (unit, g) := g.nextUnit
    (bucket (unit * total) none 0 weights, g)

end Behavior
