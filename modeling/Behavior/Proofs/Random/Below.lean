import Behavior.Random.Generator
import Mathlib.Data.Int.CardIntervalMod
import Mathlib.Data.Set.Card
/-!
# Draws below a bound

The words below the limit of a bound fall into whole runs of residues, and they are at least half of all words.
So of the words that are accepted equally many give each number below the bound (`Generator.below_uniform`).
-/

namespace Behavior

namespace Generator

variable {bound : UInt64} {g : Generator}

/-! ## The limit -/

theorem bound_pos (hbound : bound ≠ 0) : 0 < bound.toNat :=
  Nat.pos_of_ne_zero fun h => hbound (UInt64.toNat.inj h)

theorem toNat_limit (hbound : bound ≠ 0) :
    (limit bound).toNat = (2 ^ 64 - 1) / bound.toNat * bound.toNat := by
  have hrest : (0xFFFFFFFFFFFFFFFF % bound).toNat = (2 ^ 64 - 1) % bound.toNat := rfl
  have hlt := Nat.mod_lt (2 ^ 64 - 1) (bound_pos hbound)
  have hdiv := Nat.div_add_mod' (2 ^ 64 - 1) bound.toNat
  rw [limit, UInt64.toNat_sub_of_le, hrest]
  · show 2 ^ 64 - 1 - _ = _
    omega
  · rw [UInt64.le_iff_toNat_le, hrest]
    show _ ≤ 2 ^ 64 - 1
    omega

theorem dvd_limit (hbound : bound ≠ 0) : bound.toNat ∣ (limit bound).toNat :=
  ⟨_, (toNat_limit hbound).trans (Nat.mul_comm _ _)⟩

/-- No more words are rejected than the bound says. -/
theorem le_limit_add (hbound : bound ≠ 0) : 2 ^ 64 ≤ (limit bound).toNat + bound.toNat := by
  have hlt := Nat.mod_lt (2 ^ 64 - 1) (bound_pos hbound)
  have hdiv := Nat.div_add_mod' (2 ^ 64 - 1) bound.toNat
  rw [toNat_limit hbound]
  omega

/-- At least half of all words are accepted. -/
theorem two_pow_le_limit (hbound : bound ≠ 0) : 2 ^ 63 ≤ (limit bound).toNat := by
  have hpos := bound_pos hbound
  have hlt := bound.toNat_lt
  have hle : bound.toNat ≤ (2 ^ 64 - 1) / bound.toNat * bound.toNat :=
    Nat.le_mul_of_pos_left _ (Nat.div_pos (by omega) hpos)
  have hadd := le_limit_add hbound
  rw [toNat_limit hbound] at hadd ⊢
  omega

/-! ## One word of a draw -/

theorem draw_lt (hbound : bound ≠ 0) (g : Generator) : (draw bound hbound g).1 < bound := by
  fun_induction draw bound hbound g with
  | case1 g _ =>
      rw [UInt64.lt_iff_toNat_lt, UInt64.toNat_mod]
      exact Nat.mod_lt _ (bound_pos hbound)
  | case2 g _ ih => exact ih

theorem draw_eq (hbound : bound ≠ 0) (g : Generator) : draw bound hbound g =
    if g.word < limit bound then (g.word % bound, g.advance) else draw bound hbound g.advance := by
  conv => lhs; unfold draw
  split <;> rfl

theorem below_of_ne_zero (hbound : bound ≠ 0) (g : Generator) : g.below bound = draw bound hbound g :=
  dif_neg hbound

/-- A word below the limit is the answer, and any other one is passed over. -/
theorem below_eq (hbound : bound ≠ 0) (g : Generator) : g.below bound =
    if g.word < limit bound then (g.word % bound, g.advance) else g.advance.below bound := by
  simp only [below_of_ne_zero hbound]
  exact draw_eq hbound g

theorem below_lt_iff : (g.below bound).1 < bound ↔ bound ≠ 0 := by
  refine ⟨fun h hbound => ?_, fun hbound => ?_⟩
  · subst hbound
    exact Nat.not_lt_zero _ (UInt64.lt_iff_toNat_lt.mp h)
  · rw [below_of_ne_zero hbound]
    exact draw_lt hbound g

/-- The bound may wrap around; then it only gets lower. -/
theorem toNat_below_le (n : Nat) (g : Generator) : (g.below (UInt64.ofNat (n + 1))).1.toNat ≤ n := by
  unfold below
  split
  · exact Nat.zero_le n
  · next h =>
      have hlt : (draw _ h g).1.toNat < (UInt64.ofNat (n + 1)).toNat := UInt64.lt_iff_toNat_lt.mp (draw_lt h g)
      have hle : (UInt64.ofNat (n + 1)).toNat ≤ n + 1 := Nat.mod_le _ _
      omega

/-! ## Counting words -/

/-- Words are counted as the natural numbers that they stand for. -/
theorem ncard_words (p : Nat → Prop) [DecidablePred p] {n : Nat} (hn : n ≤ 2 ^ 64) :
    {x : UInt64 | x.toNat < n ∧ p x.toNat}.ncard = n.count p := by
  have hinj : Function.Injective UInt64.toNat := fun _ _ => UInt64.toNat.inj
  rw [← Set.ncard_image_of_injective _ hinj, Nat.count_eq_card_filter_range, ← Set.ncard_coe_finset]
  congr 1
  ext i
  simp only [Set.mem_image, Set.mem_ofPred_eq, Finset.coe_filter, Finset.mem_range]
  constructor
  · rintro ⟨x, hx, rfl⟩
    exact hx
  · intro hi
    have htoNat : (UInt64.ofNat i).toNat = i := Nat.mod_eq_of_lt (by omega)
    exact ⟨UInt64.ofNat i, htoNat.symm ▸ hi, htoNat⟩

/-- Each number below the bound is the residue of equally many words that are accepted. -/
theorem ncard_accepted {r : UInt64} (hbound : bound ≠ 0) (hr : r < bound) :
    {x | x < limit bound ∧ x % bound = r}.ncard = (limit bound).toNat / bound.toNat := by
  have hpos := bound_pos hbound
  have hmod : r.toNat % bound.toNat = r.toNat := Nat.mod_eq_of_lt (UInt64.lt_iff_toNat_lt.mp hr)
  have hset : {x | x < limit bound ∧ x % bound = r} =
      {x : UInt64 | x.toNat < (limit bound).toNat ∧ x.toNat ≡ r.toNat [MOD bound.toNat]} := by
    ext x
    simp only [Set.mem_ofPred_eq, UInt64.lt_iff_toNat_lt, ← UInt64.toNat_inj, UInt64.toNat_mod, Nat.ModEq, hmod]
  rw [hset, ncard_words (· ≡ r.toNat [MOD bound.toNat]) (limit bound).toNat_lt.le, Nat.count_modEq_card _ hpos,
    Nat.mod_eq_zero_of_dvd (dvd_limit hbound)]
  simp

/-- Draws below a bound are exactly uniform: the limit is the multiple of the bound that it is meant to be, a
word below it is accepted and any other one passed over, and of the words accepted equally many give each
number below the bound. -/
theorem below_uniform (hbound : bound ≠ 0) :
    ((limit bound).toNat : Int) = (2 ^ 64 - 1) - (2 ^ 64 - 1) % (bound.toNat : Int) ∧
    0 < (limit bound).toNat ∧ bound.toNat ∣ (limit bound).toNat ∧ 2 ^ 63 ≤ (limit bound).toNat ∧
    (∀ g : Generator, g.below bound =
      if g.word < limit bound then (g.word % bound, g.advance) else g.advance.below bound) ∧
    ∀ r < bound, {x | x < limit bound ∧ x % bound = r}.ncard = (limit bound).toNat / bound.toNat := by
  have hhalf := two_pow_le_limit hbound
  refine ⟨?_, by omega, dvd_limit hbound, hhalf, below_eq hbound, fun r hr => ncard_accepted hbound hr⟩
  have hdiv := Nat.div_add_mod' (2 ^ 64 - 1) bound.toNat
  have hlimit := toNat_limit hbound
  have hrest : (2 ^ 64 - 1) % (bound.toNat : Int) = ((2 ^ 64 - 1) % bound.toNat : Nat) := by
    rw [Int.natCast_mod]
    rfl
  rw [hrest]
  omega

/-- Below a bound just past half of all words, each number comes from one word only. -/
theorem below_uniform_past_half : (0x8000000000000001 : UInt64) ≠ 0 ∧
    {x | x < limit 0x8000000000000001 ∧ x % 0x8000000000000001 = 5}.ncard = 1 := by
  have hbound : (0x8000000000000001 : UInt64) ≠ 0 := by decide
  exact ⟨hbound, ((below_uniform hbound).2.2.2.2.2 5 (by decide)).trans (by decide)⟩

end Generator

end Behavior
