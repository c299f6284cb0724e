/-!
# Queues

First in, first out, with consumers that wait for an item. An aborted queue turns away every consumer that
waits and every item.
-/

namespace Behavior

/-- A queue that can be aborted. -/
structure Queue (α : Type) where
  items : List α := []
  aborted : Bool := false
  deriving DecidableEq, Repr

/-- What a waiting consumer gets. -/
inductive Waited (α : Type) where
  | item (a : α)
  /-- There is nothing, and nothing will come. -/
  | turnedAway
  /-- There is nothing yet. -/
  | blocked
  deriving DecidableEq, Repr

/-- The item that a consumer got. -/
def Waited.item? {α : Type} : Waited α → Option α
  | item a => some a
  | _ => none

namespace Queue

variable {α : Type} (q : Queue α)

def empty : Queue α := {}

instance : Inhabited (Queue α) := ⟨empty⟩

def size : Nat := q.items.length

def isEmpty : Bool := q.items.isEmpty

/-- Appends an item, unless the queue is aborted. -/
def push (a : α) : Bool × Queue α :=
  if q.aborted then (false, q) else (true, { q with items := q.items ++ [a] })

def pop : Option α × Queue α :=
  match q.items with
  | [] => (none, q)
  | a :: rest => (some a, { q with items := rest })

/-- Takes the first item, or waits for one. -/
def waitPop : Waited α × Queue α :=
  if q.aborted then (.turnedAway, q)
  else
    match q.items with
    | [] => (.blocked, q)
    | a :: rest => (.item a, { q with items := rest })

/-- Drops all items and accepts no more. -/
def abort (_ : Queue α) : Queue α := { items := [], aborted := true }

def clear : Queue α := { q with items := [] }

/-- A consumer waits while an item is pushed: whether the item was accepted, and what the consumer got. -/
def pushToWaiting (a : α) : (Bool × Option α) × Queue α :=
  match q.waitPop with
  | (.blocked, q) =>
    let (accepted, q) := q.push a
    let (got, q) := q.waitPop
    ((accepted, got.item?), q)
  | (got, q) =>
    let (accepted, q) := q.push a
    ((accepted, got.item?), q)

/-- Aborts the queue if a consumer that comes now would have to wait. -/
def abortWaiting : Bool × Queue α :=
  match q.waitPop with
  | (.blocked, q) => (true, q.abort)
  | _ => (false, q)

end Queue

end Behavior
