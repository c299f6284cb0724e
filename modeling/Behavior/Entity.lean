import Std.Data.ExtTreeMap
/-!
# Entities

The identity of a character under the control of an agent, and the order of identities.
-/

namespace Behavior

/-- A stable identity, unique within a zone. -/
structure EntityId where
  val : UInt64
  deriving DecidableEq, Repr, Inhabited

namespace EntityId

instance : Ord EntityId := ⟨compareOn val⟩

instance : LT EntityId := ⟨fun a b => a.val < b.val⟩

instance : LE EntityId := ⟨fun a b => a.val ≤ b.val⟩

instance (a b : EntityId) : Decidable (a < b) := inferInstanceAs (Decidable (a.val < b.val))

instance (a b : EntityId) : Decidable (a ≤ b) := inferInstanceAs (Decidable (a.val ≤ b.val))

instance : Std.TransOrd EntityId := inferInstanceAs (Std.TransCmp (compareOn val))

instance : Std.LawfulEqOrd EntityId where
  eq_of_compare {a b} h := by
    have h : compare a.val b.val = .eq := h
    cases a; cases b
    simpa using h

variable {a b c : EntityId}

theorem lt_irrefl : ¬a < a := UInt64.lt_irrefl a.val

theorem lt_trans (h : a < b) (h' : b < c) : a < c := UInt64.lt_trans h h'

theorem lt_asymm (h : a < b) : ¬b < a := UInt64.lt_asymm h

theorem ne_of_lt (h : a < b) : a ≠ b := fun heq => lt_irrefl (heq ▸ h)

theorem compare_eq_lt : compare a b = .lt ↔ a < b := Std.compare_eq_lt (a := a.val) (b := b.val)

theorem compare_eq_gt : compare a b = .gt ↔ b < a := by
  rw [← compare_eq_lt, Std.OrientedCmp.gt_iff_lt]

theorem lt_trichotomy : a < b ∨ a = b ∨ b < a := by
  cases h : compare a b with
  | lt => exact .inl (compare_eq_lt.mp h)
  | eq => exact .inr (.inl (Std.LawfulEqOrd.eq_of_compare h))
  | gt => exact .inr (.inr (compare_eq_gt.mp h))

def text (e : EntityId) : String := toString e.val.toNat

/-- The number inside its type's name, as records show it. -/
def debug (e : EntityId) : String := "EntityId(" ++ e.text ++ ")"

/-- An identity from a 32-bit number. -/
def ofUInt32 (n : UInt32) : EntityId := ⟨n.toUInt64⟩

end EntityId

end Behavior
