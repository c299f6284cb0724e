import Behavior.Proofs.Random.Below
import Behavior.Proofs.Random.Shuffle
import Mathlib.Data.Set.Function
/-!
# The orders a shuffle gives

Of distinct items every order comes from exactly one sequence of drawn indices: the first exchange settles the
last position for good, and each item that may stand there takes another index. A shuffle draws one index after
another, each up to its own position, and exchanges as it goes (`Generator.shuffle_unbiased`).
-/

namespace Behavior

variable {α : Type} {items out : Array α} {js ks : List Nat} {i p : Nat}

/-- What can be drawn: an index up to `i`, one up to `i - 1`, and so on down to one up to 1. -/
def draws : Nat → Set (List Nat)
  | 0 => {[]}
  | i + 1 => {js | ∃ j ≤ i + 1, ∃ js' ∈ draws i, js = j :: js'}

theorem length_of_mem_draws (h : js ∈ draws i) : js.length = i := by
  induction i generalizing js with
  | zero => rw [h]; rfl
  | succ i ih =>
      obtain ⟨j, -, js, hjs, rfl⟩ := h
      rw [List.length_cons, ih hjs]

namespace Generator

theorem indices_mem_draws (i : Nat) (g : Generator) : (g.indices i).1 ∈ draws i := by
  induction i generalizing g with
  | zero => rfl
  | succ i ih => exact ⟨_, toNat_below_le (i + 1) g, _, ih _, rfl⟩

/-- Draws and exchanges in turn: for each position from `i` down to the second one, an index up to it is drawn, and
the entries at the two are exchanged. -/
def exchanging : Nat → Array α → Generator → Array α × Generator
  | 0, items, g => (items, g)
  | i + 1, items, g =>
    let (j, g) := g.below (UInt64.ofNat (i + 2))
    exchanging i (items.swapIfInBounds (i + 1) j.toNat) g

theorem indices_succ (i : Nat) (g : Generator) : g.indices (i + 1) =
    ((g.below (UInt64.ofNat (i + 2))).1.toNat :: ((g.below (UInt64.ofNat (i + 2))).2.indices i).1,
      ((g.below (UInt64.ofNat (i + 2))).2.indices i).2) := rfl

/-- What is drawn does not depend on what has been exchanged. -/
theorem exchanging_eq (i : Nat) (items : Array α) (g : Generator) :
    exchanging i items g = (exchange (g.indices i).1 items, (g.indices i).2) := by
  induction i generalizing items g with
  | zero => rfl
  | succ i ih => simp only [exchanging, ih, indices_succ, exchange, length_indices]

end Generator

/-! ## What an exchange settles -/

/-- Positions past the first one that is exchanged are left alone. -/
theorem getElem?_exchange_of_lt (hjs : js ∈ draws i) (hp : i < p) : (exchange js items)[p]? = items[p]? := by
  induction i generalizing js items with
  | zero => rw [hjs]; rfl
  | succ i ih =>
      obtain ⟨j, hj, js, hjs, rfl⟩ := hjs
      rw [exchange, ih hjs (by omega), length_of_mem_draws hjs]
      grind

/-- The first exchange settles the last position. -/
theorem getElem?_exchange_self {j : Nat} (hi : i + 1 < items.size) (hj : j ≤ i + 1) (hjs : js ∈ draws i) :
    (exchange (j :: js) items)[i + 1]? = items[j]? := by
  rw [exchange, getElem?_exchange_of_lt hjs (by omega), length_of_mem_draws hjs]
  grind

theorem eq_of_getElem?_eq {j k : Nat} (hitems : items.toList.Nodup) (hj : j < items.size)
    (h : items[j]? = items[k]?) : j = k := by
  refine (List.getElem?_inj (by simpa using hj) hitems).mp ?_
  simpa using h

/-! ## One order for each sequence of draws -/

theorem exchange_injective (hi : i ≤ items.size - 1) (hitems : items.toList.Nodup) (hjs : js ∈ draws i)
    (hks : ks ∈ draws i) (h : exchange js items = exchange ks items) : js = ks := by
  induction i generalizing js ks items with
  | zero => exact hjs.trans hks.symm
  | succ i ih =>
      obtain ⟨j, hj, js, hjs, rfl⟩ := hjs
      obtain ⟨k, hk, ks, hks, rfl⟩ := hks
      have hlast : items[j]? = items[k]? := by
        rw [← getElem?_exchange_self (by omega) hj hjs, h, getElem?_exchange_self (by omega) hk hks]
      obtain rfl := eq_of_getElem?_eq hitems (by omega) hlast
      simp only [exchange, length_of_mem_draws hjs, length_of_mem_draws hks] at h
      have hperm := Array.perm_iff_toList_perm.mp (swapIfInBounds_perm items (i + 1) j)
      rw [ih (by simp; omega) (hperm.nodup_iff.mpr hitems) hjs hks h]

/-- An item that is not settled yet comes from a position that is not settled yet. -/
theorem exists_source (hperm : out.Perm items) (hout : out.toList.Nodup) (hi : i < out.size)
    (hagree : ∀ p, i < p → out[p]? = items[p]?) : ∃ j ≤ i, items[j]? = out[i]? := by
  have hmem : out[i] ∈ items := hperm.mem_iff.mp (Array.getElem_mem hi)
  obtain ⟨j, hj, heq⟩ := Array.mem_iff_getElem.mp hmem
  have hjout : items[j]? = out[i]? := by grind
  refine ⟨j, Nat.le_of_not_lt fun hlt => ?_, hjout⟩
  have := eq_of_getElem?_eq hout hi (hjout.symm.trans (hagree j hlt).symm)
  omega

/-- Any order that agrees with the items past `i` can be reached by exchanges up to `i`. -/
theorem exists_exchange_eq (hi : i ≤ items.size - 1) (hperm : out.Perm items) (hout : out.toList.Nodup)
    (hagree : ∀ p, i < p → out[p]? = items[p]?) : ∃ js ∈ draws i, exchange js items = out := by
  induction i generalizing items with
  | zero =>
      refine ⟨[], rfl, Array.ext_getElem? fun p => ?_⟩
      cases p with
      | succ p => exact (hagree (p + 1) (by omega)).symm
      | zero =>
          obtain hempty | hpos := Nat.eq_zero_or_pos out.size
          · have := hperm.size_eq
            grind [exchange]
          · obtain ⟨j, hj, heq⟩ := exists_source hperm hout hpos hagree
            rwa [Nat.le_zero.mp hj] at heq
  | succ i ih =>
      have hsize := hperm.size_eq
      obtain ⟨j, hj, heq⟩ := exists_source hperm hout (by omega) hagree
      -- Once the item for position `i + 1` is there, the two agree from that position on.
      have hagree' : ∀ p, i < p → out[p]? = (items.swapIfInBounds (i + 1) j)[p]? := by
        intro p hp
        have := hagree p
        grind
      obtain ⟨js, hjs, hout⟩ := ih (by simp; omega) (hperm.trans (swapIfInBounds_perm items _ _).symm) hagree'
      exact ⟨j :: js, ⟨j, hj, js, hjs, rfl⟩, by rw [exchange, length_of_mem_draws hjs, hout]⟩

/-- A shuffle is unbiased: of distinct items each order comes from exactly one of the sequences that can be drawn,
and a shuffle draws one of these, for each position from the last down to the second an index up to it, from the
generator that the draw before has left. Drawing all indices first and exchanging then is the same as doing both in
turn. Whatever the items are, they are only put into another order. -/
theorem Generator.shuffle_unbiased (items : List α) :
    (items.Nodup → Set.BijOn (fun js => (exchange js items.toArray).toList) (draws (items.length - 1))
      {order | order.Perm items}) ∧
    (∀ g : Generator, g.indices 0 = ([], g)) ∧
    (∀ (i : Nat) (g : Generator), g.indices (i + 1) =
      ((g.below (UInt64.ofNat (i + 2))).1.toNat :: ((g.below (UInt64.ofNat (i + 2))).2.indices i).1,
        ((g.below (UInt64.ofNat (i + 2))).2.indices i).2)) ∧
    ∀ g : Generator, (g.indices (items.length - 1)).1 ∈ draws (items.length - 1) ∧
      g.shuffle items = ((exchange (g.indices (items.length - 1)).1 items.toArray).toList,
        (g.indices (items.length - 1)).2) ∧
      g.shuffle items = ((exchanging (items.length - 1) items.toArray g).1.toList,
        (exchanging (items.length - 1) items.toArray g).2) ∧
      (g.shuffle items).1.Perm items := by
  refine ⟨fun hitems => ⟨?maps, ?injective, ?surjective⟩, fun g => rfl, indices_succ,
    fun g => ⟨indices_mem_draws _ g, rfl, ?inTurn, shuffle_perm items g⟩⟩
  case maps =>
    intro js _
    exact Array.perm_iff_toList_perm.mp (exchange_perm js items.toArray)
  case injective =>
    intro js hjs ks hks h
    exact exchange_injective (by simp) hitems hjs hks (Array.toList_inj.mp h)
  case surjective =>
    intro order hperm
    have hagree : ∀ p, items.length - 1 < p → order.toArray[p]? = items.toArray[p]? := by
      intro p hp
      have := hperm.length_eq
      grind
    obtain ⟨js, hjs, heq⟩ := exists_exchange_eq (by simp) (Array.perm_iff_toList_perm.mpr hperm)
      (hperm.nodup_iff.mpr hitems) hagree
    exact ⟨js, hjs, congrArg Array.toList heq⟩
  case inTurn =>
    rw [exchanging_eq]
    rfl

/-- From the state zero, 1 is drawn below three and then 0 below two. -/
theorem Generator.shuffle_unbiased_three : [1, 2, 3].Nodup ∧
    Set.BijOn (fun js => (exchange js #[1, 2, 3]).toList) (draws 2) {order | order.Perm [1, 2, 3]} ∧
    (indices 2 ⟨0⟩).1 = [1, 0] ∧ [1, 0] ∈ draws 2 ∧
    shuffle [1, 2, 3] ⟨0⟩ = ([3, 1, 2], ⟨increment + increment⟩) ∧ [3, 1, 2].Perm [1, 2, 3] := by
  have hitems : [1, 2, 3].Nodup := by decide
  obtain ⟨hbijective, hzero, hsucc, hshuffle⟩ := shuffle_unbiased [1, 2, 3]
  have hthree : below (UInt64.ofNat (1 + 2)) ⟨0⟩ = (1, ⟨increment⟩) := by
    rw [below_eq (by decide), if_pos (by decide)]
    decide
  have htwo : below (UInt64.ofNat (0 + 2)) ⟨increment⟩ = (0, ⟨increment + increment⟩) := by
    rw [below_eq (by decide), if_pos (by decide)]
    decide
  have hindices : indices 2 ⟨0⟩ = ([1, 0], ⟨increment + increment⟩) := by
    rw [hsucc 1, hthree, hsucc 0, htwo, hzero]
    rfl
  obtain ⟨hdrawn, horder, -, hperm⟩ := hshuffle ⟨0⟩
  change (indices 2 ⟨0⟩).1 ∈ draws 2 at hdrawn
  change shuffle [1, 2, 3] ⟨0⟩ = ((exchange (indices 2 ⟨0⟩).1 #[1, 2, 3]).toList, (indices 2 ⟨0⟩).2) at horder
  rw [hindices] at hdrawn horder
  have hshuffled : shuffle [1, 2, 3] ⟨0⟩ = ([3, 1, 2], ⟨increment + increment⟩) := horder
  rw [hshuffled] at hperm
  exact ⟨hitems, hbijective hitems, congrArg Prod.fst hindices, hdrawn, hshuffled, hperm⟩

end Behavior
