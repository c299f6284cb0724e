import Mathlib
/-!
# Single precision above zero

Rounding to single precision never takes a number above zero to zero. So a sum of numbers above zero is one too,
unless it overflows to infinity (`Positive.add`, and packed in 32 bits `Positive.unpack_pack`).
-/

namespace Behavior.Single

open Float.Model (Format UnpackedFloat totalExponent)
open Float.Model.UnpackedFloat

/-! ## Rounding -/

/-- A mantissa and an exponent that single precision can hold, but for the size of the exponent. -/
structure Fits (m : Nat) (e : Int) : Prop where
  pos : 0 < m
  lt : m < 2 ^ 24
  le : -149 ≤ e

/-- Numbers above zero; infinity is what sums overflow to. -/
inductive Positive : UnpackedFloat → Prop where
  | infinity : Positive (.infinity .positive)
  | finite {m e} (fits : Fits m e) : Positive (.finite .positive m e fits.pos)

theorem mantissa_shiftRight (em : ExtendedMantissa) (n : Nat) : (em >>> n).mantissa = em.mantissa / 2 ^ n := by
  show (n.repeat ExtendedMantissa.shiftRightOne em).mantissa = _
  induction n with
  | zero => simp [Nat.repeat]
  | succ n ih => rw [Nat.repeat, ExtendedMantissa.shiftRightOne, ih, Nat.div_div_eq_div_mul, Nat.pow_succ]

theorem mantissa_ofMantissaAndAccuracy (m : Nat) (a : Accuracy) :
    (ExtendedMantissa.ofMantissaAndAccuracy m a).mantissa = m := by
  cases a with
  | exact => rfl
  | inexact order => cases order <;> rfl

theorem mantissa_le_roundedMantissa (em : ExtendedMantissa) : em.mantissa ≤ em.roundedMantissa := by
  obtain ⟨m, round, sticky⟩ := em
  cases round <;> cases sticky <;>
    simp [ExtendedMantissa.roundedMantissa, ExtendedMantissa.accuracy, Accuracy.roundToNearestEven]

theorem targetExponent_eq (m : Nat) (e : Int) :
    Format.binary32.targetExponent (totalExponent m e) = max (m.log2 + 1 + e - 24) (-149) := rfl

/-- A mantissa is shifted until it is no longer too long, and never away. -/
theorem fits_shiftToTargetExponent {m : Nat} {e : Int} (a : Accuracy) (hm : 0 < m) (he : -149 ≤ e) :
    Fits (shiftToTargetExponent .binary32 m e a).1.mantissa (shiftToTargetExponent .binary32 m e a).2 := by
  simp only [shiftToTargetExponent, shiftToExponent, targetExponent_eq, mantissa_shiftRight,
    mantissa_ofMantissaAndAccuracy]
  obtain ⟨k, hk⟩ : ∃ k, (max ((m.log2 : Int) + 1 + e - 24) (-149) - e).toNat = k := ⟨_, rfl⟩
  rw [hk]
  have hlow : 2 ^ k ≤ m :=
    Nat.le_trans (Nat.pow_le_pow_right (by decide) (by omega)) (Nat.log2_self_le (Nat.ne_of_gt hm))
  have hhigh : m < 2 ^ (24 + k) :=
    Nat.lt_of_lt_of_le Nat.lt_log2_self (Nat.pow_le_pow_right (by decide) (by omega))
  refine ⟨Nat.div_pos hlow (Nat.two_pow_pos k), ?_, by omega⟩
  rwa [Nat.div_lt_iff_lt_mul (Nat.two_pow_pos k), ← Nat.pow_add]

theorem positive_roundWithAccuracy {m : Nat} {e : Int} (a : Accuracy) (hm : 0 < m) (he : -149 ≤ e) :
    Positive (roundWithAccuracy .binary32 .positive m e a) := by
  have first := fits_shiftToTargetExponent a hm he
  have hrounded := Nat.lt_of_lt_of_le first.pos (mantissa_le_roundedMantissa _)
  have second := fits_shiftToTargetExponent .exact hrounded first.le
  simp only [roundWithAccuracy]
  rw [dif_neg (Nat.ne_of_gt second.pos)]
  exact .finite second

theorem positive_normalize {n : Int} {e : Int} (hn : 0 < n) (he : -149 ≤ e) :
    Positive (UnpackedFloat.normalize .binary32 n e .positive) := by
  have hgt : compare n 0 = .gt := Int.compare_eq_gt.mpr hn
  simp only [UnpackedFloat.normalize, hgt, UnpackedFloat.round, decreaseExponent, targetExponent_eq]
  refine positive_roundWithAccuracy .exact ?_ (by omega)
  rw [Nat.shiftLeft_eq]
  exact Nat.mul_pos (by omega) (Nat.two_pow_pos _)

theorem Positive.add {x y : UnpackedFloat} (hx : Positive x) (hy : Positive y) :
    Positive (UnpackedFloat.add .binary32 x y) := by
  cases hx with
  | infinity => cases hy <;> exact .infinity
  | @finite m e fits =>
      cases hy with
      | infinity => exact .infinity
      | @finite m' e' fits' =>
          refine positive_normalize (Int.add_pos_of_pos_of_nonneg ?_ (Int.natCast_nonneg _)) ?_
          · rw [Nat.shiftLeft_eq]
            exact Int.natCast_pos.mpr (Nat.mul_pos fits.pos (Nat.two_pow_pos _))
          · have := fits.le
            have := fits'.le
            omega

/-! ## Packing -/

theorem fits_unpack {b : BitVec Format.binary32.numBits} {s m e h} (hb : unpack .binary32 b = .finite s m e h) :
    Fits m e := by
  have hmantissa : (unpackMantissa b).toNat < 2 ^ 23 := (unpackMantissa b).isLt
  have hbias : (Format.binary32.exponentBias : Int) = 127 := rfl
  simp only [unpack, hbias] at hb
  split at hb
  · split at hb <;> cases hb
  · split at hb
    · next hexponent =>
      split at hb
      · cases hb
      · injection hb with _ hm he
        simp only [hexponent, BitVec.toNat_zero] at he
        exact ⟨h, by omega, by omega⟩
    · next hexponent =>
      injection hb with _ hm he
      have hpos : 0 < (unpackExponent b).toNat := Nat.pos_of_ne_zero fun h0 => hexponent (BitVec.eq_of_toNat_eq h0)
      rw [BitVec.toNat_append, ← Nat.shiftLeft_add_eq_or_of_lt hmantissa] at hm
      exact ⟨h, by simp at hm; omega, by omega⟩

theorem positive_unpack_packComponents {exponent : BitVec 8} {mantissa : BitVec 23}
    (hzero : exponent ≠ 0#8 ∨ mantissa ≠ 0#23) (hnan : exponent ≠ -1#8 ∨ mantissa = 0#23) :
    Positive (unpack .binary32 (packComponents .binary32 .positive exponent mantissa)) := by
  have hfits : ∀ {s m e h}, unpack .binary32 (packComponents .binary32 .positive exponent mantissa) = .finite s m e h →
      Fits m e := fits_unpack
  simp only [unpack, unpackExponent_packComponents, unpackMantissa_packComponents, unpackSign_packComponents] at hfits ⊢
  split
  · next hexponent =>
    rw [if_pos (hnan.resolve_left (not_not_intro hexponent))]
    exact .infinity
  · next hexponent =>
    rw [if_neg hexponent] at hfits
    split
    · next hzero' =>
      have hmantissa := hzero.resolve_left (not_not_intro hzero')
      rw [if_pos hzero', dif_neg hmantissa] at hfits
      rw [dif_neg hmantissa]
      exact .finite (hfits rfl)
    · next hzero' =>
      rw [if_neg hzero'] at hfits
      exact .finite (hfits rfl)

theorem ofNat_ne_zero {w n : Nat} (h : 0 < n) (hlt : n < 2 ^ w) : BitVec.ofNat w n ≠ 0#w := by
  intro heq
  have := congrArg BitVec.toNat heq
  rw [BitVec.toNat_ofNat, Nat.mod_eq_of_lt hlt] at this
  simp at this
  omega

theorem Positive.unpack_pack {x : UnpackedFloat} (hx : Positive x) :
    Positive (unpack .binary32 (pack .binary32 x)) := by
  cases hx with
  | infinity => exact positive_unpack_packComponents (.inl (by decide)) (.inr rfl)
  | @finite m e fits =>
      have hbias : (Format.binary32.exponentBias : Int) = 127 := rfl
      have hbits : Format.binary32.mantissaBits = 24 := rfl
      have hle := fits.le
      have hlog : m.log2 < 24 := (Nat.log2_lt (Nat.ne_of_gt fits.pos)).mpr fits.lt
      simp only [pack, hbias, hbits]
      split
      · exact positive_unpack_packComponents (.inl (by decide)) (.inr rfl)
      · next hsmall =>
        split
        · refine positive_unpack_packComponents (.inl (ofNat_ne_zero (by omega) (by omega))) (.inl fun heq => ?_)
          have := congrArg BitVec.toNat heq
          rw [BitVec.toNat_ofNat, Nat.mod_eq_of_lt (by omega)] at this
          simp at this
          omega
        · have hlt : m < 2 ^ 23 := (Nat.log2_lt (Nat.ne_of_gt fits.pos)).mp (by omega)
          exact positive_unpack_packComponents (.inr (ofNat_ne_zero fits.pos hlt)) (.inl (by decide))

end Behavior.Single
