import Behavior.Character
import Behavior.Memory
/-!
# Actors

Characters for rehearsing a behaviour without a game. An actor has a list of enemies and a clock, counts
how often each of its leaves and probes was called, and keeps notes of those calls.
-/

namespace Behavior

/-- One note of a rehearsal. -/
inductive Note where
  /-- A leaf was run: its node, whether it began anew, its timer, and the filtered entities. -/
  | leaf (node : NodeId) (firstRun : Bool) (timer : Int64) (filtered : List EntityId)
  /-- A probe was read. -/
  | probe (name : String) (value : Bool)
  /-- A leaf looked around: the entity it ran for, the time, and the zone's name, its size and whether
  the entity is in it. -/
  | observed (entity : EntityId) (tick : Tick) (zone : Option (String × Nat × Bool))
  deriving DecidableEq, Repr

/-- The state of an actor. -/
structure Actor where
  foes : List EntityId := []
  clock : UInt64 := 0
  leafCalls : Std.ExtTreeMap NodeId Nat := ∅
  probeCalls : Std.ExtTreeMap String Nat := ∅
  notes : List Note := []

namespace Actor

instance : Character Actor where
  advance delta a := { a with clock := a.clock + delta }
  enemies a := a.foes

variable (a : Actor)

def note (n : Note) : Actor := { a with notes := a.notes ++ [n] }

/-- How often the leaf at a node was called before, and the actor with this call counted. -/
def callLeaf (n : NodeId) : Nat × Actor :=
  let calls := a.leafCalls[n]?.getD 0
  (calls, { a with leafCalls := a.leafCalls.insert n (calls + 1) })

/-- How often a probe was read before, and the actor with this reading counted. -/
def callProbe (name : String) : Nat × Actor :=
  let calls := a.probeCalls[name]?.getD 0
  (calls, { a with probeCalls := a.probeCalls.insert name (calls + 1) })

/-- The notes so far, and the actor without them. -/
def takeNotes : List Note × Actor := (a.notes, { a with notes := [] })

end Actor

/-- The entry of a programme for one of its calls: the last entry is repeated for ever. -/
def atCall {α : Type} (programme : List α) (call : Nat) : Option α :=
  programme[min call (programme.length - 1)]?

end Behavior
