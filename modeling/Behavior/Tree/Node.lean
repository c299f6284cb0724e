import Behavior.Condition
import Behavior.Decimal.Shortest
import Behavior.Task
/-!
# Tree nodes

The hierarchy of nodes in which a behaviour is put together, before it is laid out for execution.
-/

namespace Behavior

/-- The kinds of nodes. -/
inductive NodeKind (χ : Type) where
  /-- Runs children in order until one does not succeed. -/
  | sequence
  /-- Runs the first child that can execute, and resumes a running one. -/
  | prioritySelector
  /-- Picks one child by weight; a missing weight counts as 1. -/
  | probabilitySelector (weights : List Float32)
  /-- Runs every child, each tick in a fresh random order. -/
  | randomSelector
  /-- Runs every child each tick. -/
  | parallel
  | invert
  /-- Reports success for any child that is done. -/
  | succeed
  /-- Reports failure for any child that is done. -/
  | fail
  /-- Lets the child complete at most `amount` times. -/
  | limit (amount : UInt32)
  | task (run : Task χ)

namespace NodeKind

variable {χ : Type}

def isLeaf : NodeKind χ → Bool
  | task _ => true
  | _ => false

def isDecorator : NodeKind χ → Bool
  | invert | succeed | fail | limit _ => true
  | _ => false

/-- The label that a node of this kind has unless it is given another. -/
def label : NodeKind χ → Label
  | sequence => { name := "Sequence" }
  | prioritySelector => { name := "PrioritySelector" }
  | probabilitySelector ws =>
    { name := "ProbabilitySelector", parameters := String.intercalate "," (ws.map Decimal.text) }
  | randomSelector => { name := "RandomSelector" }
  | parallel => { name := "Parallel" }
  | invert => { name := "Invert" }
  | succeed => { name := "Succeed" }
  | fail => { name := "Fail" }
  | limit n => { name := "Limit", parameters := toString n.toNat }
  | task _ => { name := "Task" }

end NodeKind

/-- A node with its descendants. -/
structure TreeNode (χ : Type) where
  label : Label
  condition : Condition χ := .trivial
  kind : NodeKind χ
  children : List (TreeNode χ) := []

namespace TreeNode

variable {χ : Type}

/-- A childless node under its kind's own label. -/
def ofKind (kind : NodeKind χ) : TreeNode χ := { label := kind.label, kind }

def leaf (label : Label) (run : Task χ) : TreeNode χ := { label, kind := .task run }

def idle (millis : UInt64) : TreeNode χ :=
  leaf { name := "Idle", parameters := toString millis.toNat } (.idle millis)

def print (text : String) : TreeNode χ := leaf { name := "Print", parameters := text } (.print text)

/-- Whether the node takes another child: leaves take none and decorators one. -/
def accepts (n : TreeNode χ) : Bool :=
  !(n.kind.isLeaf || (n.kind.isDecorator && !n.children.isEmpty))

/-- Appends a child if the node takes one. -/
def addChild? (n : TreeNode χ) (child : TreeNode χ) : Option (TreeNode χ) :=
  if n.accepts then some { n with children := n.children ++ [child] } else none

/-- Appends children in order; each one refused is reported and dropped. -/
def withChildren (n : TreeNode χ) (children : List (TreeNode χ)) : TreeNode χ × List Entry :=
  children.foldl (fun (n, entries) child =>
    match n.addChild? child with
    | some n => (n, entries)
    | none => (n, entries ++ [.childRejected n.label.name child.label])) (n, [])

mutual

def count : TreeNode χ → Nat
  | ⟨_, _, _, children⟩ => 1 + countAll children

def countAll : List (TreeNode χ) → Nat
  | [] => 0
  | n :: ns => n.count + countAll ns

end

/-! ## Views -/

mutual

/-- Every node of a hierarchy, parents before children. -/
def preorder : TreeNode χ → List (TreeNode χ)
  | ⟨label, condition, kind, children⟩ => ⟨label, condition, kind, children⟩ :: preorderAll children

def preorderAll : List (TreeNode χ) → List (TreeNode χ)
  | [] => []
  | n :: ns => n.preorder ++ preorderAll ns

end

mutual

def debug : TreeNode χ → String
  | ⟨label, condition, _, children⟩ =>
    Text.record "TreeNode"
      [("name", Text.quoted label.text), ("condition", condition.text),
        ("children", Text.list (debugAll children))]

def debugAll : List (TreeNode χ) → List String
  | [] => []
  | n :: ns => n.debug :: debugAll ns

end

end TreeNode

end Behavior
