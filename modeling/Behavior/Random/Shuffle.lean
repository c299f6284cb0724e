import Behavior.Random.Generator
/-!
# Shuffling

A shuffle draws one index for every position from the last down to the second, each not above its
position, and exchanges the two entries. Which indices were drawn alone decides the order.
-/

namespace Behavior

/-- Exchanges along a list of indices: the head is the partner of the position equal to the list's
length, the tail deals with the positions before it. -/
def exchange {α : Type} : List Nat → Array α → Array α
  | [], items => items
  | j :: js, items => exchange js (items.swapIfInBounds (js.length + 1) j)

namespace Generator

/-- Draws an index up to `i`, one up to `i - 1`, and so on down to one up to 1. -/
def indices : Nat → Generator → List Nat × Generator
  | 0, g => ([], g)
  | i + 1, g =>
    let (j, g) := g.below (UInt64.ofNat (i + 2))
    let (js, g) := indices i g
    (j.toNat :: js, g)

/-- Puts the items into a random order, every order equally likely. -/
def shuffle {α : Type} (items : List α) (g : Generator) : List α × Generator :=
  let (js, g) := indices (items.length - 1) g
  ((exchange js items.toArray).toList, g)

end Generator

end Behavior
