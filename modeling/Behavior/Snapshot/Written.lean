import Behavior.Json.Decode
import Behavior.Json.Reader
import Behavior.Json.Writer
import Behavior.Snapshot
/-!
# The written form of snapshots

A node is a JSON object that holds the list of its children; an agent is an object around its root. A
node takes two levels of nesting, one for itself and one for the list.
-/

namespace Behavior

namespace NodeSnapshot

def fieldNames : List String := ["id", "name", "condition", "status", "children"]

mutual

def toJson : NodeSnapshot → Json
  | ⟨id, name, condition, status, children⟩ =>
    .record [("id", .natural id.toNat), ("name", .ofText name), ("condition", .ofText condition),
      ("status", .ofStatus status), ("children", .array (toJsonAll children))]

def toJsonAll : List NodeSnapshot → List Json
  | [] => []
  | n :: ns => n.toJson :: toJsonAll ns

end

/-- Reads the written form within so many levels. -/
def ofJson? : Nat → Json → Option NodeSnapshot
  | depth + 2, v => do
    let [id, name, condition, status, children] ← v.fields fieldNames | none
    return { id := ← id.word32?, name := ← name.string?, condition := ← condition.string?
             status := ← status.status?, children := ← (← children.items).mapM (ofJson? depth) }
  | _, _ => none

def dump (n : NodeSnapshot) : String := n.toJson.render

def load? (s : String) : Option NodeSnapshot := do ofJson? Json.levels (← Json.parse? s)

end NodeSnapshot

namespace AgentSnapshot

def fieldNames : List String := ["entity", "tick", "time_millis", "status", "paused", "root"]

def toJson (a : AgentSnapshot) : Json :=
  .record [("entity", .ofEntity a.entity), ("tick", .ofWord64 a.tick), ("time_millis", .ofWord64 a.time),
    ("status", .ofStatus a.status), ("paused", .bool a.paused), ("root", a.root.toJson)]

def ofJson? (v : Json) : Option AgentSnapshot := do
  let [entity, tick, time, status, paused, root] ← v.fields fieldNames | none
  return { entity := ← entity.entity?, tick := ← tick.word64?, time := ← time.word64?
           status := ← status.status?, paused := ← paused.flag?
           root := ← NodeSnapshot.ofJson? (Json.levels - 1) root }

def dump (a : AgentSnapshot) : String := a.toJson.render

def load? (s : String) : Option AgentSnapshot := do ofJson? (← Json.parse? s)

end AgentSnapshot

end Behavior
