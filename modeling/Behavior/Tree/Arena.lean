import Behavior.Snapshot
import Behavior.Tree.Node
/-!
# Behaviour trees

A finished hierarchy is laid out in pre-order, so a node's id is its index and a node with all its
descendants takes up the ids from its own up to, but not including, its `stop`. Forgetting a subtree for
one entity is then forgetting a range of ids.
-/

namespace Behavior

/-- One node of a laid-out tree. -/
structure Slot (χ : Type) where
  label : Label
  condition : Condition χ
  kind : NodeKind χ
  children : List NodeId
  /-- One past the last id of the node's subtree. -/
  stop : NodeId

/-- A behaviour that any number of agents can share. -/
structure BehaviorTree (χ : Type) where
  name : String
  slots : Array (Slot χ)

namespace TreeNode

variable {χ : Type}

/-- The ids of siblings of which the first has the id `start`. -/
def siblingIds (start : NodeId) : List (TreeNode χ) → List NodeId
  | [] => []
  | n :: ns => start :: siblingIds (start + n.count) ns

mutual

/-- The layout of a hierarchy whose root has the id `start`. -/
def layout (start : NodeId) : TreeNode χ → List (Slot χ)
  | ⟨label, condition, kind, children⟩ =>
    { label, condition, kind
      children := siblingIds (start + 1) children
      stop := start + 1 + countAll children } :: layoutAll (start + 1) children

/-- The layout of siblings of which the first has the id `start`. -/
def layoutAll (start : NodeId) : List (TreeNode χ) → List (Slot χ)
  | [] => []
  | n :: ns => n.layout start ++ layoutAll (start + n.count) ns

end

end TreeNode

namespace BehaviorTree

variable {χ : Type}

/-- Lays out a hierarchy under a name. -/
def ofNode (name : String) (root : TreeNode χ) : BehaviorTree χ :=
  { name, slots := (root.layout NodeId.root).toArray }

variable (t : BehaviorTree χ)

def size : Nat := t.slots.size

def isEmpty : Bool := t.slots.isEmpty

def slot? (id : NodeId) : Option (Slot χ) := t.slots[id]?

/-- The first node in pre-order with this name. -/
def find? (name : String) : Option NodeId := t.slots.findIdx? (·.label.name == name)

/-- The children of a node; an id past the end has none. -/
def children (id : NodeId) : List NodeId := ((t.slot? id).map (·.children)).getD []

def nameOf? (id : NodeId) : Option String := (t.slot? id).map (·.label.name)

def labelText? (id : NodeId) : Option String := (t.slot? id).map (·.label.text)

def conditionText? (id : NodeId) : Option String := (t.slot? id).map (·.condition.text)

/-- The ids of a node and its descendants. -/
def subtree (id : NodeId) : List NodeId :=
  match t.slot? id with
  | some s => List.range' id (s.stop - id)
  | none => []

/-- The ids of the descendants of a node. -/
def descendants (id : NodeId) : List NodeId := (t.subtree id).tail

/-- Forgets, outside any tick, what is recorded about a node and its descendants for an entity. -/
def resetState (id : NodeId) (e : EntityId) (m : Memory) : Memory :=
  (t.subtree id).foldl (·.forget · e) m

def idText (id : NodeId) : String := "#" ++ toString id

def debug : String :=
  Text.record "BehaviorTree" [("name", Text.quoted t.name), ("nodes", toString t.size)]

/-! ## Snapshots -/

/-- The snapshot of a node, down to the given depth. -/
def snapshotTo (m : Memory) (e : EntityId) : (depth : Nat) → NodeId → NodeSnapshot
  | 0, id => ⟨UInt32.ofNat id, "", "", .unknown, []⟩
  | depth + 1, id =>
    match t.slot? id with
    | none => ⟨UInt32.ofNat id, "", "", .unknown, []⟩
    | some s =>
      { id := UInt32.ofNat id
        name := s.label.text
        condition := s.condition.text
        status := m.status id e
        children := s.children.map (snapshotTo m e depth) }

/-- What is recorded about the whole tree for an entity. No path is longer than the tree. -/
def snapshot (m : Memory) (e : EntityId) : NodeSnapshot := t.snapshotTo m e t.size NodeId.root

end BehaviorTree

end Behavior
