import Behavior.Agent
/-!
# Operations on an agent

Everything that can happen to an agent from outside, and a session: an agent with the steps of its last
update.
-/

namespace Behavior

variable {χ : Type}

/-- What the owner of an agent can do with it. -/
inductive Agent.Operation (χ : Type) where
  | update (home : Option Roster) (delta : UInt64)
  | setPaused (paused : Bool)
  | resetState
  | setBehavior (name : String) (root : TreeNode χ)
  | setCharacter (entity : EntityId) (character : χ)
  | setSeed (seed : UInt64)
  | setZone (zone : ZoneLink)
  | changeBoard (change : Blackboard → Blackboard)
  | changeCharacter (change : χ → χ)

namespace Agent

/-! ## The update of an agent that is not paused -/

variable (a : Agent χ) (home : Option Roster) (delta : UInt64)

/-- What the tree can read during an update. -/
def scene : Scene where
  entity := a.entity
  zone := a.zone.resolve home
  tick := { number := a.tick, delta, time := later a.time delta, seed := a.seed }

/-- The frame on which the tree is executed. -/
def frame [Character χ] : Frame χ where
  character := Character.advance delta a.character
  memory := a.memory
  board := a.board
  received := a.received

variable [Character χ]

/-- What the execution of the tree gives. -/
def execution : Status × Frame χ := a.behavior.execute (a.scene home delta) NodeId.root (a.frame delta)

variable {a home delta}

theorem update_of_paused (h : a.paused = true) : a.update home delta = { status := a.status, agent := a } := by
  simp [update, h]

theorem update_of_awake (h : a.paused = false) :
    a.update home delta =
      { status := (a.execution home delta).1
        agent := { a with
          character := (a.execution home delta).2.character
          memory := (a.execution home delta).2.memory
          board := (a.execution home delta).2.board
          received := (a.execution home delta).2.received
          tick := a.tick + 1
          time := later a.time delta
          status := (a.execution home delta).1 }
        journal := (a.execution home delta).2.journal
        steps := (a.execution home delta).2.steps } := by
  simp [update, h, execution, scene, frame]

theorem behavior_update : (a.update home delta).agent.behavior = a.behavior := by
  cases hp : a.paused with
  | true => rw [update_of_paused hp]
  | false => rw [update_of_awake hp]

theorem entity_update : (a.update home delta).agent.entity = a.entity := by
  cases hp : a.paused with
  | true => rw [update_of_paused hp]
  | false => rw [update_of_awake hp]

/-! ## Operations -/

variable (a)

def perform : Operation χ → Agent χ
  | .update home delta => (a.update home delta).agent
  | .setPaused paused => { a with paused }
  | .resetState => a.resetState
  | .setBehavior name root => a.setBehavior (.ofNode name root)
  | .setCharacter entity character => a.setCharacter entity character
  | .setSeed seed => { a with seed }
  | .setZone zone => { a with zone }
  | .changeBoard change => { a with board := change a.board }
  | .changeCharacter change => { a with character := change a.character }

def run (ops : List (Operation χ)) : Agent χ := ops.foldl (·.perform ·) a

end Agent

/-- An agent with the steps of its last update that was not paused, unless its state has been reset since. -/
structure Session (χ : Type) where
  agent : Agent χ
  latest : Option (List (Step χ)) := none

namespace Session

variable [Character χ] (s : Session χ)

/-- The steps to remember after an operation. -/
def remembered : Agent.Operation χ → Option (List (Step χ))
  | .update home delta => if s.agent.paused then s.latest else some (s.agent.update home delta).steps
  | .resetState | .setBehavior .. | .setCharacter .. => none
  | _ => s.latest

def perform (op : Agent.Operation χ) : Session χ := { agent := s.agent.perform op, latest := s.remembered op }

def run (ops : List (Agent.Operation χ)) : Session χ := ops.foldl perform s

end Session

/-- A sequence of one leaf that waits. -/
def TreeNode.waiting : TreeNode Unit := { TreeNode.ofKind .sequence with children := [.idle 100] }

end Behavior
