import Behavior.Entity
import Behavior.Random.Generator
/-!
# Ticks

The time of one update of one agent, and the random streams that belong to it.
-/

namespace Behavior

/-- One update: its number since the agent began, the time passed since the update before, the agent's
accumulated time with this update, and the seed of its random choices. -/
structure Tick where
  number : UInt64 := 0
  delta : UInt64 := 0
  time : UInt64 := 0
  seed : UInt64 := 0
  deriving DecidableEq, Repr

/-- The random stream that belongs to the seed, the entity, the stream number and the tick. -/
def Tick.generator (t : Tick) (e : EntityId) (stream : UInt64) : Generator :=
  ⟨deriveSeed t.seed e.val (mix (stream ^^^ mix (t.number + 1)))⟩

end Behavior
