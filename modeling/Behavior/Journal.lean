import Behavior.Duration
import Behavior.Entity
import Behavior.Label
/-!
# The journal

What the library reports about its own work: one entry an occurrence, with a level, a message and named
texts.
-/

namespace Behavior

/-- The unexpected failure of a leaf. -/
inductive Fault where
  | message (text : String)
  | panicked (text : String)
  | other (text : String)
  deriving DecidableEq, Repr

def Fault.text : Fault → String
  | message t | other t => t
  | panicked t => "task panicked: " ++ t

/-- How important an entry is. -/
inductive Level where
  | debug
  | info
  | warn
  deriving DecidableEq, Repr

def Level.text : Level → String
  | debug => "DEBUG"
  | info => "INFO"
  | warn => "WARN"

/-- One occurrence. -/
inductive Entry where
  | childRejected (parent : String) (child : Label)
  | printed (entity : EntityId) (tick : UInt64) (text : String)
  | taskFault (entity : EntityId) (node : Nat) (fault : Fault)
  | agentAdded (zone : String) (entity : EntityId)
  | agentRemoved (zone : String) (entity : EntityId)
  | zoneStarted (zone : String) (tickMillis : UInt64)
  | zoneStopped (zone : String)
  /-- A scheduler accepted a job. -/
  | jobScheduled (job : Nat) (delay : Duration) (period : Option Duration)
  deriving DecidableEq, Repr

namespace Entry

def level : Entry → Level
  | childRejected .. | taskFault .. => .warn
  | printed .. | zoneStarted .. | zoneStopped .. => .info
  | agentAdded .. | agentRemoved .. | jobScheduled .. => .debug

def message : Entry → String
  | childRejected .. => "child rejected"
  | printed _ _ text => text
  | taskFault .. => "task fault"
  | agentAdded .. => "ai added"
  | agentRemoved .. => "ai removed"
  | zoneStarted .. => "zone started"
  | zoneStopped .. => "zone stopped"
  | jobScheduled .. => "task scheduled"

def fields : Entry → List (String × String)
  | childRejected parent child => [("parent", parent), ("child", child.text)]
  | printed entity tick _ => [("entity", entity.text), ("tick", toString tick.toNat)]
  | taskFault entity node fault =>
    [("entity", entity.text), ("node", "#" ++ toString node), ("error", fault.text)]
  | agentAdded zone entity | agentRemoved zone entity => [("zone", zone), ("entity", entity.text)]
  | zoneStarted zone tickMillis => [("zone", zone), ("tick_millis", toString tickMillis.toNat)]
  | zoneStopped zone => [("zone", zone)]
  | jobScheduled job delay period =>
    [("task", toString job), ("delay", delay.text), ("period", Text.option Duration.text period)]

end Entry

end Behavior
