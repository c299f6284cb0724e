import Behavior.Roster
import Behavior.Tick
/-!
# Characters and their scenes

What the library knows of a game's characters, and what an execution on behalf of one can read.
-/

namespace Behavior

/-- What a game tells about the state of its characters. -/
class Character (χ : Type) where
  /-- Advances the character's own clock by the given milliseconds, before the tree runs. -/
  advance : UInt64 → χ → χ := fun _ state => state
  /-- The entities the character is hostile towards, highest aggro first. -/
  enemies : χ → List EntityId := fun _ => []

/-- A character of which nothing is known. -/
instance : Character Unit := {}

/-- What an execution can read and never changes: who it runs for, the surrounding group, and the time. -/
structure Scene where
  entity : EntityId
  zone : Option Roster := none
  tick : Tick := {}

/-- What conditions and filters may change: the state of the character, whose reading may leave marks, and
the list of entities that the last filter condition selected. -/
structure Watch (χ : Type) where
  character : χ
  filtered : List EntityId

end Behavior
