import Behavior.Json.Decode
import Behavior.Json.Reader
import Behavior.Json.Writer
import Behavior.Trace.Event
/-!
# The written form of trace logs

A log is a JSON object with the list of its events, each an object with the five fields of an event.
-/

namespace Behavior

namespace TraceEvent

def fieldNames : List String := ["tick", "entity", "tag", "a", "b"]

def toJson (e : TraceEvent) : Json :=
  .record [("tick", .ofWord64 e.tick), ("entity", .ofEntity e.entity), ("tag", .ofText e.tag),
    ("a", .ofWord64 e.a), ("b", .ofWord64 e.b)]

def ofJson? (v : Json) : Option TraceEvent := do
  let [tick, entity, tag, a, b] ← v.fields fieldNames | none
  return { tick := ← tick.word64?, entity := ← entity.entity?, tag := ← tag.string?, a := ← a.word64?
           b := ← b.word64? }

end TraceEvent

namespace TraceLog

def toJson (log : TraceLog) : Json := .record [("events", .array (log.events.map (·.toJson)))]

def ofJson? (v : Json) : Option TraceLog := do
  let [events] ← v.fields ["events"] | none
  return ⟨← (← events.items).mapM TraceEvent.ofJson?⟩

def dump (log : TraceLog) : String := log.toJson.render

def load? (s : String) : Option TraceLog := do ofJson? (← Json.parse? s)

end TraceLog

end Behavior
