import Behavior.Blackboard
/-!
# Tracing

Tracing is on for an agent when its blackboard holds a log or a sink; an event goes to whichever is there.
-/

namespace Behavior.Trace

def logKey : Key TraceLog := ⟨0xA11D7ACE00000001⟩

def sinkKey : Key TraceSink := ⟨0xA11D7ACE00000002⟩

/-- Whether anybody listens. -/
def enabled (b : Blackboard) : Bool := b.contains logKey || b.contains sinkKey

/-- Appends an event to the log, if there is one. -/
def record (b : Blackboard) (e : TraceEvent) : Blackboard := b.modify logKey (·.push e)

/-- The events that the sink receives, if there is one. -/
def sent (b : Blackboard) (e : TraceEvent) : List TraceEvent := if b.contains sinkKey then [e] else []

/-- Empties the log, if there is one. -/
def clear (b : Blackboard) : Blackboard := b.modify logKey fun _ => {}

/-- Takes log and sink away, and puts an empty log or a sink in place as asked for. -/
def listen (log sink : Bool) (b : Blackboard) : Blackboard :=
  let b := (b.erase logKey).erase sinkKey
  let b := if log then b.insert logKey {} else b
  if sink then b.insert sinkKey {} else b

end Behavior.Trace
