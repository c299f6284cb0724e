/-!
# Status

The result of executing one node of a behaviour tree for one entity during one tick.
-/

namespace Behavior

/-- Everything except `running` concludes the node's part in the tick; `unknown` is what an entity
reads for a node about which nothing is recorded. -/
inductive Status where
  | unknown
  | cannotExecute
  | running
  | finished
  | failed
  | exception
  deriving DecidableEq, Repr, Inhabited

namespace Status

/-- Whether the node asks to be resumed at the next tick. -/
def isRunning : Status → Bool
  | .running => true
  | _ => false

/-- Whether the node is done for the tick. -/
def isTerminal (s : Status) : Bool := !s.isRunning

/-- The node did not do its job, but nothing broke. -/
def isFailure : Status → Bool
  | .cannotExecute | .failed => true
  | _ => false

/-- The name in capitals, as renderings show it. -/
def text : Status → String
  | .unknown => "UNKNOWN"
  | .cannotExecute => "CANNOTEXECUTE"
  | .running => "RUNNING"
  | .finished => "FINISHED"
  | .failed => "FAILED"
  | .exception => "EXCEPTION"

/-- The name of the variant, as records and JSON show it. -/
def variant : Status → String
  | .unknown => "Unknown"
  | .cannotExecute => "CannotExecute"
  | .running => "Running"
  | .finished => "Finished"
  | .failed => "Failed"
  | .exception => "Exception"

/-- Every status, in the order of the codes. -/
def all : List Status := [.unknown, .cannotExecute, .running, .finished, .failed, .exception]

/-- The status whose variant has this name. -/
def ofVariant? (name : String) : Option Status := all.find? (·.variant == name)

/-- The compact numeric code that trace events carry. -/
def code : Status → UInt64
  | .unknown => 0
  | .cannotExecute => 1
  | .running => 2
  | .finished => 3
  | .failed => 4
  | .exception => 5

/-- Reads a code back; a code that no status has reads as `unknown`. -/
def ofCode (code : UInt64) : Status :=
  if code = 1 then .cannotExecute
  else if code = 2 then .running
  else if code = 3 then .finished
  else if code = 4 then .failed
  else if code = 5 then .exception
  else .unknown

theorem ofCode_code (s : Status) : ofCode s.code = s := by cases s <;> rfl

theorem isRunning_iff {s : Status} : s.isRunning = true ↔ s = .running := by cases s <;> simp [isRunning]

end Status

end Behavior
