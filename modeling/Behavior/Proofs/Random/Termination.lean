import Behavior.Proofs.Random.Below
import Behavior.Proofs.Random.Period
import Behavior.Random.Shuffle
import Mathlib.Data.Finset.Card
/-!
# Draws come to an end

The loop of a draw has no counter, so one would think that it may reject any number of words. But a word does not
come up again within a period, and there are no more words to reject than the bound says; after that many words
one is accepted. So loops that are given up after so many words give the same results as the draws and shuffles
themselves (`Generator.draws_terminate`).
-/

namespace Behavior

namespace Generator

variable {bound : UInt64} {g : Generator} {n : Nat}

/-! ## Loops that may be given up -/

/-- A draw that is given up when so many words have been rejected. -/
def drawWithin (bound : UInt64) : Nat → Generator → Option (UInt64 × Generator)
  | 0, _ => none
  | n + 1, g =>
    if g.word < limit bound then some (g.word % bound, g.advance) else drawWithin bound n g.advance

def belowWithin (n : Nat) (bound : UInt64) (g : Generator) : Option (UInt64 × Generator) :=
  if bound = 0 then some (0, g) else drawWithin bound n g

def indicesWithin (n : Nat) : Nat → Generator → Option (List Nat × Generator)
  | 0, g => some ([], g)
  | i + 1, g => do
    let (j, g) ← belowWithin n (UInt64.ofNat (i + 2)) g
    let (js, g) ← indicesWithin n i g
    some (j.toNat :: js, g)

/-- A shuffle that is given up when so many words of one draw have been rejected. -/
def shuffleWithin {α : Type} (n : Nat) (items : List α) (g : Generator) : Option (List α × Generator) := do
  let (js, g) ← indicesWithin n (items.length - 1) g
  some ((exchange js items.toArray).toList, g)

/-! ## How long they take -/

/-- Among the next words, one more than the bound says, there is one that is accepted. -/
theorem exists_accepted (hbound : bound ≠ 0) (g : Generator) :
    ∃ n ≤ bound.toNat, (g.after n).word < limit bound := by
  -- Otherwise the words would be distinct, and more than there are from the limit on.
  by_contra! hrejected
  have hlt := bound.toNat_lt
  have hadd := le_limit_add hbound
  have hmaps : ∀ n ∈ Finset.range (bound.toNat + 1),
      (g.after n).word.toNat ∈ Finset.Ico (limit bound).toNat (2 ^ 64) := by
    intro n hn
    have hle := UInt64.le_iff_toNat_le.mp (UInt64.not_lt.mp (hrejected n (by grind)))
    exact Finset.mem_Ico.mpr ⟨hle, (g.after n).word.toNat_lt⟩
  have hcard : (Finset.Ico (limit bound).toNat (2 ^ 64)).card < (Finset.range (bound.toNat + 1)).card := by
    rw [Nat.card_Ico, Finset.card_range]
    omega
  obtain ⟨m, hm, n, hn, hne, heq⟩ := Finset.exists_ne_map_eq_of_card_lt_of_maps_to hcard hmaps
  rw [Finset.mem_range] at hm hn
  exact hne (word_after_inj (by omega) (by omega) (UInt64.toNat.inj heq))

theorem drawWithin_eq (hbound : bound ≠ 0) {m : Nat} (hm : m < n) (hword : (g.after m).word < limit bound) :
    drawWithin bound n g = some (draw bound hbound g) := by
  induction n generalizing g m with
  | zero => exact absurd hm (Nat.not_lt_zero m)
  | succ n ih =>
      rw [drawWithin, draw_eq]
      split
      · rfl
      · next hrejected =>
          cases m with
          | zero => exact absurd hword hrejected
          | succ m => exact ih (Nat.lt_of_succ_lt_succ hm) (after_succ g m ▸ hword)

theorem belowWithin_eq (h : bound.toNat < n) (g : Generator) : belowWithin n bound g = some (g.below bound) := by
  unfold belowWithin
  split
  · next hbound => rw [below, dif_pos hbound]
  · next hbound =>
      obtain ⟨m, hm, hword⟩ := exists_accepted hbound g
      rw [below_of_ne_zero hbound, drawWithin_eq hbound (by omega) hword]

theorem indicesWithin_eq {i : Nat} (h : ∀ k < i, k + 2 < n) (g : Generator) :
    indicesWithin n i g = some (g.indices i) := by
  induction i generalizing g with
  | zero => rfl
  | succ i ih =>
      have hle : (UInt64.ofNat (i + 2)).toNat ≤ i + 2 := Nat.mod_le _ _
      have hlt := h i (Nat.lt_succ_self i)
      have hrest := ih fun k hk => h k (Nat.lt_succ_of_lt hk)
      rw [indicesWithin, belowWithin_eq (Nat.lt_of_le_of_lt hle hlt)]
      simp only [Option.bind_eq_bind, Option.bind_some, hrest, indices]

theorem shuffleWithin_eq {α : Type} {items : List α} (h : items.length < n) (g : Generator) :
    shuffleWithin n items g = some (g.shuffle items) := by
  have hshort : ∀ k < items.length - 1, k + 2 < n := by omega
  simp only [shuffleWithin, indicesWithin_eq hshort, Option.bind_eq_bind, Option.bind_some, shuffle]

/-- The generator has the full period, and so every loop of draws comes to an end: mixing takes words to words one
to one, each word comes up exactly once in 2⁶⁴ consecutive draws, a draw below a bound takes at most one word more
than the bound says and gives a number below it, and no draw of a shuffle takes more words than there are items,
and one. -/
theorem draws_terminate :
    Function.Bijective mix ∧
    (∀ (g : Generator) (k : Nat) (x : UInt64), ∃! n, (k ≤ n ∧ n < k + 2 ^ 64) ∧ (g.after n).word = x) ∧
    (∀ (g : Generator) (bound : UInt64) (n : Nat), bound.toNat < n →
      g.belowWithin n bound = some (g.below bound)) ∧
    (∀ (g : Generator) (bound : UInt64), (g.below bound).1 < bound ↔ bound ≠ 0) ∧
    (∀ g : Generator, g.below 0 = (0, g)) ∧
    ∀ (α : Type) (items : List α) (g : Generator) (n : Nat), items.length < n →
      g.shuffleWithin n items = some (g.shuffle items) := by
  refine ⟨mix_bijective, existsUnique_word_after, ?draw, fun g bound => below_lt_iff, fun g => rfl, ?shuffle⟩
  case draw =>
    intro g bound n h
    exact belowWithin_eq h g
  case shuffle =>
    intro α items g n h
    exact shuffleWithin_eq h g

theorem draws_terminate_dice : (6 : UInt64).toNat < 7 ∧ [1, 2, 3].length < 4 ∧
    belowWithin 7 6 ⟨0⟩ = some (below 6 ⟨0⟩) ∧ shuffleWithin 4 [1, 2, 3] ⟨0⟩ = some (shuffle [1, 2, 3] ⟨0⟩) := by
  have hbound : (6 : UInt64).toNat < 7 := by decide
  have hitems : [1, 2, 3].length < 4 := by decide
  obtain ⟨-, -, hbelow, -, -, hshuffle⟩ := draws_terminate
  exact ⟨hbound, hitems, hbelow ⟨0⟩ 6 7 hbound, hshuffle Nat [1, 2, 3] ⟨0⟩ 4 hitems⟩

end Generator

end Behavior
