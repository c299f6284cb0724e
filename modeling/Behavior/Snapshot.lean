import Behavior.Entity
import Behavior.Status
/-!
# Snapshots

Read-only copies of what a tree has recorded for one entity, for people who debug a behaviour.
-/

namespace Behavior

/-- One node with its descendants: the id, the name with parameters, the text of the guard and the last
recorded status. -/
structure NodeSnapshot where
  id : UInt32
  name : String
  condition : String
  status : Status
  children : List NodeSnapshot
  deriving Repr

/-- An agent at one moment. -/
structure AgentSnapshot where
  entity : EntityId
  tick : UInt64
  time : UInt64
  status : Status
  paused : Bool
  root : NodeSnapshot
  deriving Repr

namespace NodeSnapshot

mutual

def count : NodeSnapshot → Nat
  | ⟨_, _, _, _, children⟩ => 1 + countAll children

def countAll : List NodeSnapshot → Nat
  | [] => 0
  | n :: ns => n.count + countAll ns

end

mutual

/-- The first node, a parent before its children, that passes the test. -/
def find? (test : NodeSnapshot → Bool) : NodeSnapshot → Option NodeSnapshot
  | ⟨id, name, condition, status, children⟩ =>
    let here : NodeSnapshot := ⟨id, name, condition, status, children⟩
    if test here then some here else findAll? test children

def findAll? (test : NodeSnapshot → Bool) : List NodeSnapshot → Option NodeSnapshot
  | [] => none
  | n :: ns => (n.find? test).or (findAll? test ns)

end

def findId? (n : NodeSnapshot) (id : UInt32) : Option NodeSnapshot := n.find? (·.id == id)

def findName? (n : NodeSnapshot) (name : String) : Option NodeSnapshot := n.find? (·.name == name)

/-- The line of one node: its name, its status, and its guard unless it is trivial. -/
def line (n : NodeSnapshot) : String :=
  n.name ++ " [" ++ n.status.text ++ "]"
    ++ if n.condition.isEmpty || n.condition == "True" then "" else " if " ++ n.condition

mutual

/-- One line a node, children two columns further right. -/
def render (depth : Nat) : NodeSnapshot → String
  | ⟨id, name, condition, status, children⟩ =>
    String.ofList (List.replicate (2 * depth) ' ') ++ line ⟨id, name, condition, status, children⟩ ++ "\n"
      ++ renderAll (depth + 1) children

/-- The lines of several nodes of one depth. -/
def renderAll (depth : Nat) : List NodeSnapshot → String
  | [] => ""
  | n :: ns => render depth n ++ renderAll depth ns

end

def text (n : NodeSnapshot) : String := n.render 0

end NodeSnapshot

end Behavior
