import Behavior.Blueprint
import Behavior.Rehearsal.Script
/-!
# Props

Conditions, filters and factories for rehearsals.
-/

namespace Behavior.Rehearsal

/-! ## Conditions -/

/-- A condition that reads off a list of values, one a reading, and notes each reading. Without values it
holds. -/
def probe (name : String) (values : List Bool) : Predicate Actor := fun _ _ w =>
  let (call, actor) := w.character.callProbe name
  let value := (atCall values call).getD true
  (value, { w with character := actor.note (.probe name value) })

/-- A slot of the blackboard holds an integer that is great enough. -/
def boardAtLeast (slot : UInt64) (least : Int64) : Predicate Actor := fun _ board w =>
  let key : Key Int64 := ⟨slot⟩
  ((board.get? key).any (least ≤ ·), w)

def filteredAtLeast (least : UInt64) : Predicate Actor := fun _ _ w =>
  (least.toNat ≤ w.filtered.length, w)

/-- Adds an entity to the filtered ones, and holds. -/
def pushFiltered (e : EntityId) : Predicate Actor := fun _ _ w =>
  (true, { w with filtered := w.filtered ++ [e] })

/-- Enough time has passed. -/
def timeAtLeast (millis : UInt64) : Predicate Actor := fun scene _ w => (millis ≤ scene.tick.time, w)

/-- There is a zone and an entity is in it. -/
def inZone (e : EntityId) : Predicate Actor := fun scene _ w => (scene.zone.any (·.contains e), w)

/-! ## Filters -/

def selectFoes : Selector Actor := fun _ _ w out => (out ++ w.character.foes, w.character)

def selectIds (es : List EntityId) : Selector Actor := fun _ _ w out => (out ++ es, w.character)

def dropLast : Selector Actor := fun _ _ w out => (out.dropLast, w.character)

/-- Selects an entity whose id is the number of filtered entities. -/
def selectCount : Selector Actor := fun _ _ w out =>
  (out ++ [⟨UInt64.ofNat w.filtered.length⟩], w.character)

/-! ## Factories -/

variable {χ : Type}

/-- What a rehearsed factory does. -/
inductive FactoryForm where
  | print
  | idle
  | refuse
  | other
  deriving DecidableEq, Repr

/-- The number of bytes of a text. -/
def byteCount (s : String) : UInt64 := UInt64.ofNat s.utf8ByteSize

/-- Adds a node type: a printer of its parameters, a wait as long as its parameters, a refusal, or a
printer of its display name that forgets all else. -/
def registerNode (r : Registry χ) (type : String) : FactoryForm → Registry χ
  | .print => r.registerTask type fun parameters => .ok (.print parameters)
  | .idle => r.registerTask type fun parameters => .ok (.idle (byteCount parameters))
  | .refuse => r.registerNode type fun q => .error (.invalidParameter type q.parameters)
  | .other => r.registerNode type fun q => .ok (.print q.name)

/-- Adds a condition type: a refusal, or as many enemies as its parameters are long. -/
def registerCondition (r : Registry χ) (type : String) : FactoryForm → Registry χ
  | .refuse => r.registerCondition type fun q =>
    .error (.invalidArity type "a miracle of" q.conditions.length)
  | _ => r.registerCondition type fun q => .ok (.enemies (byteCount q.parameters))

/-- Adds a filter type: a refusal, or the union of its filters. -/
def registerFilter (r : Registry χ) (type : String) : FactoryForm → Registry χ
  | .refuse => r.registerFilter type fun q =>
    .error (.unknownType .filter (type ++ "/" ++ q.parameters))
  | _ => r.registerFilter type fun q => .ok (.unionOf q.filters)

end Behavior.Rehearsal
