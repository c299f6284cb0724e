import Behavior.Entity
import Behavior.Status
/-!
# Memory

Everything that executions remember about tree nodes. Trees are shared between all entities that behave
alike, so what is remembered is kept apart from them, by node and entity.
-/

namespace Behavior

/-- A node's place in its tree: its index in pre-order. -/
abbrev NodeId := Nat

def NodeId.root : NodeId := 0

/-- What is remembered about one node for one entity: the last status, the child at which a selector
resumes, the timer of a leaf, and the time of the last execution. -/
structure NodeRecord where
  status : Status := .unknown
  selected : Option Nat := none
  timer : Int64 := 0
  lastExecuted : Option UInt64 := none
  deriving DecidableEq, Repr, Inhabited

/-- A node for an entity. -/
structure NodeKey where
  node : NodeId
  entity : EntityId
  deriving DecidableEq, Repr

namespace NodeKey

instance : Ord NodeKey := ⟨compareLex (compareOn node) (compareOn entity)⟩

instance : Std.TransOrd NodeKey :=
  inferInstanceAs (Std.TransCmp (compareLex (compareOn node) (compareOn entity)))

instance : Std.LawfulEqOrd NodeKey where
  eq_of_compare {a b} h := by
    have h : (compareLex (compareOn node) (compareOn entity)) a b = .eq := h
    simp only [compareLex, compareOn, Ordering.then_eq_eq, Std.LawfulEqOrd.compare_eq_iff_eq] at h
    cases a; cases b
    simpa using h

theorem compare_eq_iff {n n' : NodeId} {e e' : EntityId} :
    compare (⟨n, e⟩ : NodeKey) ⟨n', e'⟩ = .eq ↔ n' = n ∧ e' = e := by
  rw [Std.LawfulEqOrd.compare_eq_iff_eq, NodeKey.mk.injEq, eq_comm, @eq_comm _ e]

end NodeKey

/-- The memory of executions: node records, how often limited nodes have completed, and what the last
filter condition selected. -/
structure Memory where
  records : Std.ExtTreeMap NodeKey NodeRecord := ∅
  completed : Std.ExtTreeMap NodeKey UInt32 := ∅
  filtered : List EntityId := []

namespace Memory

def empty : Memory := {}

instance : Inhabited Memory := ⟨empty⟩

variable (m : Memory) (n : NodeId) (e : EntityId)

/-- The record of a node, if there is one. -/
def get? : Option NodeRecord := m.records[(⟨n, e⟩ : NodeKey)]?

/-- The record of a node, or a blank one. -/
def getD : NodeRecord := (m.get? n e).getD {}

/-- Changes the record of a node, making one if there is none. -/
def update (f : NodeRecord → NodeRecord) : Memory :=
  { m with records := m.records.insert ⟨n, e⟩ (f (m.getD n e)) }

def status : Status := (m.getD n e).status

def setStatus (s : Status) : Memory := m.update n e fun r => { r with status := s }

/-- The child at which the node resumes. -/
def selected : Option Nat := (m.getD n e).selected

def select (i : Nat) : Memory := m.update n e fun r => { r with selected := some i }

/-- Selects no child; a node without a record stays without one. -/
def deselect : Memory :=
  if (m.get? n e).isSome then m.update n e fun r => { r with selected := none } else m

def setSelected : Option Nat → Memory
  | some i => m.select n e i
  | none => m.deselect n e

def setTimer (t : Int64) : Memory := m.update n e fun r => { r with timer := t }

/-- Forgets the record of a node, but not how often it has completed. -/
def forget : Memory := { m with records := m.records.erase ⟨n, e⟩ }

/-- How often a limited node has completed. -/
def completions : UInt32 := m.completed[(⟨n, e⟩ : NodeKey)]?.getD 0

/-- Counts a completion; the count stops at the greatest number. -/
def complete : Memory :=
  let count := m.completions n e
  { m with completed := m.completed.insert ⟨n, e⟩ (if count = 0xFFFFFFFF then count else count + 1) }

def size : Nat := m.records.size

def isEmpty : Bool := m.records.isEmpty

/-! ## What is read after a change -/

variable {m n e} {n' : NodeId} {e' : EntityId}

@[simp] theorem get?_empty : ({} : Memory).get? n e = none := by simp [get?]

@[simp] theorem completions_empty : ({} : Memory).completions n e = 0 := by simp [completions]

theorem get?_update {f : NodeRecord → NodeRecord} :
    (m.update n e f).get? n' e' = if n' = n ∧ e' = e then some (f (m.getD n e)) else m.get? n' e' := by
  simp only [get?, update, Std.ExtTreeMap.getElem?_insert, NodeKey.compare_eq_iff]

theorem get?_update_self {f : NodeRecord → NodeRecord} :
    (m.update n e f).get? n e = some (f (m.getD n e)) := by simp [get?_update]

theorem get?_update_of_ne {f : NodeRecord → NodeRecord} (h : ¬(n' = n ∧ e' = e)) :
    (m.update n e f).get? n' e' = m.get? n' e' := by simp [get?_update, h]

theorem get?_forget : (m.forget n e).get? n' e' = if n' = n ∧ e' = e then none else m.get? n' e' := by
  simp only [get?, forget, Std.ExtTreeMap.getElem?_erase, NodeKey.compare_eq_iff]

/-- Selecting no child changes a record and never makes one. -/
theorem get?_setSelected {i : Option Nat} :
    (m.setSelected n e i).get? n' e' =
      if n' = n ∧ e' = e then
        if i = none ∧ m.get? n e = none then none else some { m.getD n e with selected := i }
      else m.get? n' e' := by
  cases i with
  | some i => simp [setSelected, select, get?_update]
  | none =>
    simp only [setSelected, deselect]
    cases h : m.get? n e with
    | some r => simp [get?_update]
    | none => split <;> simp_all

theorem getD_eq : m.getD n e = (m.get? n e).getD {} := rfl

theorem getD_update_self {f : NodeRecord → NodeRecord} : (m.update n e f).getD n e = f (m.getD n e) := by
  rw [getD_eq, get?_update_self, Option.getD_some]

theorem getD_forget_self : (m.forget n e).getD n e = {} := by
  rw [getD_eq, get?_forget, if_pos ⟨rfl, rfl⟩, Option.getD_none]

theorem getD_setSelected_self {i : Option Nat} :
    (m.setSelected n e i).getD n e = { m.getD n e with selected := i } := by
  rw [getD_eq, get?_setSelected, if_pos ⟨rfl, rfl⟩]
  split
  · rename_i h
    rw [h.1, getD_eq, h.2]; rfl
  · rfl

@[simp] theorem selected_setSelected {i : Option Nat} : (m.setSelected n e i).selected n e = i := by
  rw [selected, getD_setSelected_self]

theorem status_eq_get? : m.status n e = ((m.get? n e).getD {}).status := rfl

theorem selected_eq_get? : m.selected n e = ((m.get? n e).getD {}).selected := rfl

@[simp] theorem get?_complete : (m.complete n e).get? n' e' = m.get? n' e' := rfl

@[simp] theorem completions_update {f : NodeRecord → NodeRecord} :
    (m.update n e f).completions n' e' = m.completions n' e' := rfl

@[simp] theorem completions_forget : (m.forget n e).completions n' e' = m.completions n' e' := rfl

@[simp] theorem completions_setSelected {i : Option Nat} :
    (m.setSelected n e i).completions n' e' = m.completions n' e' := by
  cases i with
  | some i => rfl
  | none => simp only [setSelected, deselect]; split <;> rfl

theorem completions_complete :
    (m.complete n e).completions n' e' =
      if n' = n ∧ e' = e then
        if m.completions n e = 0xFFFFFFFF then m.completions n e else m.completions n e + 1
      else m.completions n' e' := by
  simp only [complete, completions, Std.ExtTreeMap.getElem?_insert, NodeKey.compare_eq_iff]
  split <;> rfl

theorem completions_complete_self :
    (m.complete n e).completions n e =
      if m.completions n e = 0xFFFFFFFF then m.completions n e else m.completions n e + 1 := by
  rw [completions_complete, if_pos ⟨rfl, rfl⟩]

@[simp] theorem filtered_setSelected {i : Option Nat} : (m.setSelected n e i).filtered = m.filtered := by
  cases i with
  | some i => rfl
  | none => simp only [setSelected, deselect]; split <;> rfl

end Memory

end Behavior
