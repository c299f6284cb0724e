import Behavior.Blackboard
import Behavior.Character
import Behavior.Journal
import Behavior.Memory
/-!
# Tasks

What leaves do. A task reads its surroundings, may change the character, its timer and the blackboard, and
reports a status, a failure or a panic.
-/

namespace Behavior

/-- What a task can read. -/
structure TaskContext where
  scene : Scene
  node : NodeId
  /-- Unless the node was left running for this entity. -/
  firstRun : Bool
  /-- What the last filter condition selected. -/
  filtered : List EntityId

/-- What a task may change; the journal only grows. -/
structure Workspace (χ : Type) where
  character : χ
  timer : Int64
  board : Blackboard
  journal : List Entry := []

/-- How a task ended: with a status, with a failure, or in a panic that may have left a text. -/
inductive Outcome where
  | status (s : Status)
  | fault (f : Fault)
  | panic (text : Option String)
  deriving DecidableEq, Repr

/-- The status, or the failure; a panic counts as a failure. -/
def Outcome.result : Outcome → Except Fault Status
  | status s => .ok s
  | fault f => .error f
  | panic text => .error (.panicked (text.getD "non-string panic payload"))

/-- A leaf's behaviour. -/
abbrev Task (χ : Type) := TaskContext → Workspace χ → Outcome × Workspace χ

namespace Task

variable {χ : Type}

/-- The number of the range that lies nearest. -/
def saturated (n : Int) : Int64 :=
  if n < Int64.minValue.toInt then Int64.minValue
  else if Int64.maxValue.toInt < n then Int64.maxValue
  else Int64.ofInt n

/-- The difference, or the end of the range that it passes. -/
def saturatingSub (a b : Int64) : Int64 := saturated (a.toInt - b.toInt)

/-- The sum, or the end of the range that it passes. -/
def saturatingAdd (a b : Int64) : Int64 := saturated (a.toInt + b.toInt)

/-- Waits. The first run arms the timer; each later run takes the passed time off it, and the run that
uses it up finishes. -/
def idle (millis : UInt64) : Task χ := fun ctx w =>
  if millis = 0 then (.status .finished, w)
  else if ctx.firstRun then (.status .running, { w with timer := saturated millis.toNat })
  else
    let timer := saturatingSub w.timer (saturated ctx.scene.tick.delta.toNat)
    (.status (if timer ≤ 0 then .finished else .running), { w with timer })

/-- Puts a text into the journal and finishes. -/
def print (text : String) : Task χ := fun ctx w =>
  (.status .finished,
    { w with journal := w.journal ++ [.printed ctx.scene.entity ctx.scene.tick.number text] })

end Task

end Behavior
