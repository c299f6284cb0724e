import Behavior.Trace.Event
import Behavior.Text.Quoted
import Behavior.Text.Record
/-!
# Blackboards

The typed scratch storage of one agent. A slot is found by its number; a key also says which kind of value
it expects there, and a slot with another kind of value reads as if it were empty.
-/

namespace Behavior

inductive Value where
  | integer (value : Int64)
  | word (value : UInt32)
  | text (value : String)
  | flag (value : Bool)
  | words (value : List UInt64)
  | log (value : TraceLog)
  | sink (value : TraceSink)
  deriving DecidableEq, Repr

/-- The kinds of values that a slot can hold, each told apart from the others. -/
class Storable (α : Type) where
  store : α → Value
  load? : Value → Option α
  load?_eq_some {v : Value} {a : α} : load? v = some a ↔ v = store a

instance : Storable Int64 where
  store := .integer
  load? | .integer a => some a | _ => none
  load?_eq_some {v a} := by cases v <;> simp

instance : Storable UInt32 where
  store := .word
  load? | .word a => some a | _ => none
  load?_eq_some {v a} := by cases v <;> simp

instance : Storable String where
  store := .text
  load? | .text a => some a | _ => none
  load?_eq_some {v a} := by cases v <;> simp

instance : Storable Bool where
  store := .flag
  load? | .flag a => some a | _ => none
  load?_eq_some {v a} := by cases v <;> simp

instance : Storable (List UInt64) where
  store := .words
  load? | .words a => some a | _ => none
  load?_eq_some {v a} := by cases v <;> simp

instance : Storable TraceLog where
  store := .log
  load? | .log a => some a | _ => none
  load?_eq_some {v a} := by cases v <;> simp

instance : Storable TraceSink where
  store := .sink
  load? | .sink a => some a | _ => none
  load?_eq_some {v a} := by cases v <;> simp

/-- The number of a slot together with the kind of value expected there. -/
structure Key (α : Type) where
  id : UInt64
  deriving DecidableEq, Repr

/-- The slot's number in its record. -/
def Key.debug {α : Type} (k : Key α) : String := "BbKey(" ++ Text.hexMarked k.id.toNat ++ ")"

/-- Values by slot number. -/
structure Blackboard where
  slots : Std.ExtTreeMap UInt64 Value := ∅

namespace Blackboard

variable {α : Type} [Storable α]

def empty : Blackboard := {}

instance : Inhabited Blackboard := ⟨empty⟩

def size (b : Blackboard) : Nat := b.slots.size

def isEmpty (b : Blackboard) : Bool := b.slots.isEmpty

/-- The value under a key, if the slot holds that kind. -/
def get? (b : Blackboard) (k : Key α) : Option α := b.slots[k.id]?.bind Storable.load?

/-- Whether the slot holds that kind of value. -/
def contains (b : Blackboard) (k : Key α) : Bool := (b.get? k).isSome

/-- Fills a slot, whatever it held. -/
def insert (b : Blackboard) (k : Key α) (a : α) : Blackboard := ⟨b.slots.insert k.id (Storable.store a)⟩

/-- Empties a slot that holds that kind of value, and leaves any other. -/
def erase (b : Blackboard) (k : Key α) : Blackboard :=
  if b.contains k then ⟨b.slots.erase k.id⟩ else b

/-- Changes the value in a slot that holds that kind, and leaves any other. -/
def modify (b : Blackboard) (k : Key α) (f : α → α) : Blackboard :=
  match b.get? k with
  | some a => b.insert k (f a)
  | none => b

def debug (b : Blackboard) : String :=
  Text.set (b.slots.keys.map fun id => Text.quoted (Text.hexMarked id.toNat))

/-! ## What is read after a change -/

variable {β : Type} [Storable β] {b b' : Blackboard} {k : Key α} {k' : Key β} {a : α}

theorem get?_insert_self : (b.insert k a).get? k = some a := by
  simp [get?, insert, Storable.load?_eq_some]

theorem get?_insert_of_ne (h : k.id ≠ k'.id) : (b.insert k a).get? k' = b.get? k' := by
  simp [get?, insert, Std.ExtTreeMap.getElem?_insert, h]

theorem get?_modify_self {f : α → α} : (b.modify k f).get? k = (b.get? k).map f := by
  simp only [modify]
  cases h : b.get? k with
  | none => simpa using h
  | some a => simp [get?_insert_self]

theorem get?_modify_of_ne {f : α → α} (h : k.id ≠ k'.id) : (b.modify k f).get? k' = b.get? k' := by
  simp only [modify]
  split
  · exact get?_insert_of_ne h
  · rfl

theorem get?_congr (h : b'.slots[k.id]? = b.slots[k.id]?) : b'.get? k = b.get? k := by simp only [get?, h]

end Blackboard

end Behavior
