/-!
# Binary search

Finds a place in a list by halving. The probe tells how an element lies to what is sought; on an ascending
list the place is the element's index, or the index at which it would have to be inserted.
-/

namespace Behavior

/-- Where something sought lies in a list. -/
inductive Place where
  | found (index : Nat)
  | missing (index : Nat)
  deriving DecidableEq, Repr

namespace Place

def index? : Place → Option Nat
  | .found i => some i
  | .missing _ => none

def isFound : Place → Bool
  | .found _ => true
  | .missing _ => false

end Place

/-- Narrows `size` candidates from `base` on down to one, keeping the upper half unless its first element
lies above. -/
def narrow (probe : Nat → Ordering) (size base : Nat) : Nat :=
  if _h : size ≤ 1 then base
  else
    let half := size / 2
    narrow probe (size - half) (if probe (base + half) = .gt then base else base + half)
termination_by size

/-- Searches a list by a probe. -/
def search {α : Type} (probe : α → Ordering) (xs : List α) : Place :=
  if xs.isEmpty then .missing 0
  else
    let at? := fun i => (xs[i]?.map probe).getD .gt
    let i := narrow at? xs.length 0
    match at? i with
    | .eq => .found i
    | .lt => .missing (i + 1)
    | .gt => .missing i

end Behavior
