import Behavior.Tree.Execution
/-!
# Agents

An agent binds one character to one behaviour tree and keeps everything that its executions remember.
-/

namespace Behavior

/-- Where an agent looks for the group it lives in. -/
inductive ZoneLink where
  | nowhere
  /-- A fixed group. -/
  | group (roster : Roster)
  /-- The zone that holds the agent. -/
  | home
  deriving DecidableEq, Repr

/-- The group behind a link, for an agent that `holder` holds. -/
def ZoneLink.resolve (holder : Option Roster) : ZoneLink → Option Roster
  | nowhere => none
  | group r => some r
  | home => holder

/-- The link that is left when a fixed group has ceased to exist. -/
def ZoneLink.withoutGroup : ZoneLink → ZoneLink
  | group _ => nowhere
  | link => link

/-- One character under the control of one behaviour. -/
structure Agent (χ : Type) where
  entity : EntityId
  character : χ
  behavior : BehaviorTree χ
  zone : ZoneLink := .nowhere
  memory : Memory := {}
  board : Blackboard := {}
  /-- The number of updates so far. -/
  tick : UInt64 := 0
  /-- The accumulated time in milliseconds. -/
  time : UInt64 := 0
  seed : UInt64 := 0x00A15EED
  paused : Bool := false
  status : Status := .unknown
  /-- The trace events that its sink has received. -/
  received : List TraceEvent := []

namespace Agent

variable {χ : Type}

/-- What an update gives: the status of the root, the agent after it, what it reports, and the steps it
took. -/
structure Turn (χ : Type) where
  status : Status
  agent : Agent χ
  journal : List Entry := []
  steps : List (Step χ) := []

/-- The sum, or the greatest number if the sum exceeds it. -/
def later (time delta : UInt64) : UInt64 :=
  if time.toNat + delta.toNat < UInt64.size then time + delta else 0xFFFFFFFFFFFFFFFF

variable (a : Agent χ)

/-- Forgets every record, count and filtered entity. -/
def resetState : Agent χ := { a with memory := {}, status := .unknown }

/-- Changes the behaviour; what was remembered about the old one is dropped. -/
def setBehavior (t : BehaviorTree χ) : Agent χ := { a with behavior := t }.resetState

/-- Takes over another character, whose ticks and time begin anew. -/
def setCharacter (entity : EntityId) (character : χ) : Agent χ :=
  { a.resetState with entity, character, tick := 0, time := 0 }

def nodeStatus (n : NodeId) : Status := a.memory.status n a.entity

/-- The child at which a node resumes. -/
def selectedChild (n : NodeId) : Option Nat := a.memory.selected n a.entity

/-- A copy of the agent's visible state. -/
def snapshot : AgentSnapshot where
  entity := a.entity
  tick := a.tick
  time := a.time
  status := a.status
  paused := a.paused
  root := a.behavior.snapshot a.memory a.entity

def debug : String :=
  Text.record "Ai"
    [("entity", a.entity.debug), ("behavior", Text.quoted a.behavior.name),
      ("tick", toString a.tick.toNat), ("paused", Text.bool a.paused),
      ("last_status", a.status.variant)]

/-- Advances time by `delta` milliseconds and executes the tree once, for an agent that is held by the
zone `home`, if by any. A paused agent does nothing and reports its last status. -/
def update [Character χ] (home : Option Roster) (delta : UInt64) : Turn χ :=
  if a.paused then { status := a.status, agent := a }
  else
    let time := later a.time delta
    let scene : Scene :=
      { entity := a.entity, zone := a.zone.resolve home
        tick := { number := a.tick, delta, time, seed := a.seed } }
    let (status, f) := a.behavior.execute scene NodeId.root
      { character := Character.advance delta a.character, memory := a.memory, board := a.board
        received := a.received }
    { status
      agent := { a with
        character := f.character, memory := f.memory, board := f.board, received := f.received
        tick := a.tick + 1, time, status }
      journal := f.journal
      steps := f.steps }

end Agent

end Behavior
