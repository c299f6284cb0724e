import Behavior.Random.Shuffle
/-!
# Shuffles

A shuffle puts its items into another order and does not look at them.
-/

namespace Behavior

variable {α β : Type}

theorem swapIfInBounds_perm (items : Array α) (i j : Nat) : (items.swapIfInBounds i j).Perm items := by
  unfold Array.swapIfInBounds
  split
  · split
    · exact Array.swap_perm _ _
    · exact .rfl
  · exact .rfl

theorem swapIfInBounds_map (f : α → β) (items : Array α) (i j : Nat) :
    (items.map f).swapIfInBounds i j = (items.swapIfInBounds i j).map f := by
  apply Array.ext
  · simp
  · intro k h₁ h₂
    simp only [Array.getElem_swapIfInBounds, Array.getElem_map]
    grind

theorem exchange_perm (js : List Nat) (items : Array α) : (exchange js items).Perm items := by
  induction js generalizing items with
  | nil => exact .rfl
  | cons j js ih => exact (ih _).trans (swapIfInBounds_perm items _ _)

theorem exchange_map (f : α → β) (js : List Nat) (items : Array α) :
    exchange js (items.map f) = (exchange js items).map f := by
  induction js generalizing items with
  | nil => rfl
  | cons j js ih => simp only [exchange, swapIfInBounds_map, ih]

namespace Generator

theorem length_indices (n : Nat) (g : Generator) : (g.indices n).1.length = n := by
  induction n generalizing g with
  | zero => rfl
  | succ n ih => simp [indices, ih]

theorem shuffle_perm (items : List α) (g : Generator) : (g.shuffle items).1.Perm items :=
  Array.perm_iff_toList_perm.mp (exchange_perm _ items.toArray)

theorem shuffle_map (f : α → β) (items : List α) (g : Generator) :
    (g.shuffle (items.map f)).1 = (g.shuffle items).1.map f := by
  simp only [shuffle, List.length_map, List.map_toArray.symm, exchange_map, Array.toList_map]

end Generator

end Behavior
