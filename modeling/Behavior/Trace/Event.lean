import Behavior.Entity
import Behavior.Status
/-!
# Trace events

Plain records of what happened during a tick, and the list in which they are kept.
-/

namespace Behavior

/-- One event; what `a` and `b` mean depends on the tag. -/
structure TraceEvent where
  tick : UInt64
  entity : EntityId := ⟨0⟩
  tag : String
  a : UInt64 := 0
  b : UInt64 := 0
  deriving DecidableEq, Repr

namespace TraceEvent

/-- The tag of a change of a node's recorded status: `a` is the node, `b` the code of the new status. -/
def statusTag : String := "bt.node.status"

/-- The tag of a leaf that failed unexpectedly: `a` is the node. -/
def faultTag : String := "bt.task.fault"

/-- A node's recorded status changed. -/
def nodeStatus (tick : UInt64) (entity : EntityId) (node : Nat) (status : Status) : TraceEvent :=
  { tick, entity, tag := statusTag, a := UInt64.ofNat node, b := status.code }

/-- A leaf failed unexpectedly. -/
def taskFault (tick : UInt64) (entity : EntityId) (node : Nat) : TraceEvent :=
  { tick, entity, tag := faultTag, a := UInt64.ofNat node }

end TraceEvent

/-- A status change read back from an event. -/
structure StatusChange where
  tick : UInt64
  node : UInt32
  status : Status
  deriving DecidableEq, Repr

/-- The change that an event with the status tag reports; a node number past 32 bits reads as the
greatest one. -/
def TraceEvent.statusChange (e : TraceEvent) : StatusChange :=
  { tick := e.tick
    node := if e.a ≤ 0xFFFFFFFF then e.a.toUInt32 else 0xFFFFFFFF
    status := .ofCode e.b }

/-- Events in the order in which they happened. -/
structure TraceLog where
  events : List TraceEvent := []
  deriving DecidableEq, Repr, Inhabited

namespace TraceLog

def push (log : TraceLog) (e : TraceEvent) : TraceLog := ⟨log.events ++ [e]⟩

def size (log : TraceLog) : Nat := log.events.length

def isEmpty (log : TraceLog) : Bool := log.events.isEmpty

def withTag (log : TraceLog) (tag : String) : List TraceEvent := log.events.filter (·.tag == tag)

def statusChanges (log : TraceLog) : List StatusChange :=
  (log.withTag TraceEvent.statusTag).map TraceEvent.statusChange

end TraceLog

/-- A listener outside the library, to which events are sent. -/
structure TraceSink where
  deriving DecidableEq, Repr, Inhabited

end Behavior
