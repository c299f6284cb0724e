import Behavior.Random.Generator
import Mathlib.Logic.Equiv.Defs
/-!
# Mixing can be undone

Mixing alternates two kinds of steps, and each kind has an inverse: a word laid over itself further down, and
a word multiplied by an odd constant. So mixing takes words to words one to one (`mix_bijective`).
-/

namespace Behavior

section

variable {k : UInt64} (hk : 22 ≤ k.toNat ∧ k.toNat < 64)

include hk

/-- Nothing is left of a word that has been moved down by 66 bits or more. -/
theorem shiftRight_thrice (x : UInt64) : x >>> k >>> k >>> k = 0 := by
  have hmod : k.toNat % 64 = k.toNat := Nat.mod_eq_of_lt hk.2
  apply UInt64.toNat.inj
  simp only [UInt64.toNat_shiftRight, hmod, ← Nat.shiftRight_add]
  have hpow : 2 ^ 64 ≤ 2 ^ (k.toNat + k.toNat + k.toNat) := Nat.pow_le_pow_right (by decide) (by omega)
  exact Nat.shiftRight_eq_zero _ _ (Nat.lt_of_lt_of_le x.toNat_lt hpow)

/-- Lays a word over itself, moved down. Moved down twice more, what was laid on falls out again. -/
def overlay : UInt64 ≃ UInt64 where
  toFun x := x ^^^ (x >>> k)
  invFun y := y ^^^ (y >>> k) ^^^ (y >>> k >>> k)
  left_inv x := by
    simp only [UInt64.shiftRight_xor, shiftRight_thrice hk]
    simp only [UInt64.xor_assoc, UInt64.xor_self, UInt64.xor_zero]
  right_inv y := by
    simp only [UInt64.shiftRight_xor, shiftRight_thrice hk, UInt64.xor_zero]
    rw [UInt64.xor_assoc y, UInt64.xor_assoc, UInt64.xor_self, UInt64.xor_zero]

end

/-- Multiplies by a word that has an inverse. -/
def scaling {a b : UInt64} (h : a * b = 1) : UInt64 ≃ UInt64 where
  toFun x := x * a
  invFun y := y * b
  left_inv x := by simp only [UInt64.mul_assoc, h, UInt64.mul_one]
  right_inv y := by simp only [UInt64.mul_assoc, UInt64.mul_comm b a, h, UInt64.mul_one]

/-- `mix` step by step, with the way back. -/
def mixing : UInt64 ≃ UInt64 :=
  (overlay (k := 30) (by decide)).trans <|
  (scaling (a := 0xBF58476D1CE4E5B9) (b := 0x96DE1B173F119089) (by decide)).trans <|
  (overlay (k := 27) (by decide)).trans <|
  (scaling (a := 0x94D049BB133111EB) (b := 0x319642B2D24D8EC3) (by decide)).trans <|
  overlay (k := 31) (by decide)

theorem mix_bijective : Function.Bijective mix := mixing.bijective

@[simp] theorem mix_inj {x y : UInt64} : mix x = mix y ↔ x = y := mixing.injective.eq_iff

theorem mix_eq_iff {x y : UInt64} : mix x = y ↔ x = mixing.symm y := mixing.eq_symm_apply.symm

/-- A generator is known from the word it draws next. -/
theorem Generator.word_inj {g g' : Generator} : g.word = g'.word ↔ g = g' := by
  refine ⟨fun h => ?_, congrArg word⟩
  have hstate : g.state + increment = g'.state + increment := mix_inj.mp h
  exact congrArg Generator.mk ((UInt64.add_left_inj increment).mp hstate)

end Behavior
