import Behavior.Entity
import Behavior.Search
/-!
# Rosters

What an agent can see of the zone it lives in: the zone's name and the identities in it.
-/

namespace Behavior

/-- A named group of entities, ids ascending. -/
structure Roster where
  name : String
  ids : List EntityId
  deriving DecidableEq, Repr

namespace Roster

/-- Whether the entity belongs to the group. -/
def contains (r : Roster) (e : EntityId) : Bool := (search (compare · e) r.ids).isFound

def size (r : Roster) : Nat := r.ids.length

def isEmpty (r : Roster) : Bool := r.size == 0

end Roster

end Behavior
