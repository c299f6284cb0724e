import Std.Data.ExtTreeMap
/-!
# Tables

Values by key, listed in ascending order of the keys.
-/

namespace Behavior

/-- Values by key. -/
structure Table (κ α : Type) [Ord κ] [Std.TransOrd κ] where
  rows : Std.ExtTreeMap κ α := ∅

namespace Table

variable {κ α : Type} [Ord κ] [Std.TransOrd κ]

/-- There is no key. -/
def empty : Table κ α := {}

instance : Inhabited (Table κ α) := ⟨empty⟩

variable (t : Table κ α)

def size : Nat := t.rows.size

def isEmpty : Bool := t.rows.isEmpty

def get? (k : κ) : Option α := t.rows[k]?

def contains (k : κ) : Bool := t.rows.contains k

def insert (k : κ) (a : α) : Table κ α := ⟨t.rows.insert k a⟩

def erase (k : κ) : Table κ α := ⟨t.rows.erase k⟩

/-- Changes the value of a key that has one. -/
def modify (k : κ) (f : α → α) : Table κ α :=
  match t.get? k with
  | some a => t.insert k (f a)
  | none => t

def keys : List κ := t.rows.keys

/-- The keys with their values, keys ascending. -/
def entries : List (κ × α) := t.rows.toList

/-! ## Looking up -/

variable {t} {k j : κ} {a : α}

theorem get?_empty : (empty : Table κ α).get? k = none := Std.ExtTreeMap.getElem?_empty

theorem pairwise_entries : t.entries.Pairwise fun x y => compare x.1 y.1 = .lt := Std.ExtTreeMap.ordered_keys_toList

variable [Std.LawfulEqOrd κ]

theorem mem_entries : (k, a) ∈ t.entries ↔ t.get? k = some a := Std.ExtTreeMap.mem_toList_iff_getElem?_eq_some

variable [DecidableEq κ]

theorem get?_insert : (t.insert k a).get? j = if k = j then some a else t.get? j := by
  simp only [get?, insert, Std.ExtTreeMap.getElem?_insert, Std.LawfulEqCmp.compare_eq_iff_eq]

theorem get?_erase : (t.erase k).get? j = if k = j then none else t.get? j := by
  simp only [get?, erase, Std.ExtTreeMap.getElem?_erase, Std.LawfulEqCmp.compare_eq_iff_eq]

end Table

end Behavior
