import Behavior.Proofs.Random.Mixing
import Mathlib.Algebra.Group.Nat.Defs
import Mathlib.Logic.Function.Iterate
/-!
# The period of the generator

The increment is odd, so the states of a generator run through all words before they repeat, and so do the
words it draws: wherever one starts to count, each word comes up exactly once in 2⁶⁴ draws
(`Generator.existsUnique_word_after`).
-/

namespace Behavior

namespace Generator

variable {g : Generator} {x : UInt64} {m n k : Nat}

/-- The generator when so many words have been drawn. -/
def after (g : Generator) (n : Nat) : Generator := advance^[n] g

@[simp] theorem after_zero (g : Generator) : g.after 0 = g := rfl

theorem after_succ (g : Generator) (n : Nat) : g.after (n + 1) = g.advance.after n :=
  Function.iterate_succ_apply advance n g

theorem state_after (g : Generator) (n : Nat) : (g.after n).state = g.state + UInt64.ofNat n * increment := by
  induction n generalizing g with
  | zero => simp
  | succ n ih =>
      rw [after_succ, ih, UInt64.ofNat_add]
      show g.state + increment + UInt64.ofNat n * increment = g.state + (UInt64.ofNat n + 1) * increment
      grind

/-- When a word comes up, counted in draws from now on and modulo 2⁶⁴. -/
def turn (g : Generator) (x : UInt64) : UInt64 := (mixing.symm x - g.state) * incrementInverse - 1

theorem word_after_eq_iff : (g.after n).word = x ↔ UInt64.ofNat n = g.turn x := by
  have unit := increment_mul_inverse
  rw [word, mix_eq_iff, turn]
  show (g.after n).state + increment = mixing.symm x ↔ _
  rw [state_after]
  generalize mixing.symm x = y
  generalize UInt64.ofNat n = i
  -- From here on it is a matter of dividing by the increment, or of multiplying by it.
  constructor <;> intro h
  · have : (y - g.state) * incrementInverse = (i + 1) * (increment * incrementInverse) := by grind
    grind
  · have : (i + 1) * increment = (y - g.state) * (increment * incrementInverse) := by grind
    grind

theorem ofNat_inj_of_window (hm : k ≤ m ∧ m < k + 2 ^ 64) (hn : k ≤ n ∧ n < k + 2 ^ 64)
    (h : UInt64.ofNat m = UInt64.ofNat n) : m = n := by
  have hmod : m % 2 ^ 64 = n % 2 ^ 64 := congrArg UInt64.toNat h
  omega

/-- Each word comes up exactly once in 2⁶⁴ consecutive draws. -/
theorem existsUnique_word_after (g : Generator) (k : Nat) (x : UInt64) :
    ∃! n, (k ≤ n ∧ n < k + 2 ^ 64) ∧ (g.after n).word = x := by
  simp only [word_after_eq_iff]
  have hlt := (g.turn x - UInt64.ofNat k).toNat_lt
  have hturn : UInt64.ofNat (k + (g.turn x - UInt64.ofNat k).toNat) = g.turn x := by
    rw [UInt64.ofNat_add, UInt64.ofNat_toNat]
    grind
  refine ⟨_, ⟨by omega, hturn⟩, ?_⟩
  rintro n ⟨hn, heq⟩
  exact ofNat_inj_of_window hn (by omega) (heq.trans hturn.symm)

theorem word_after_inj (hm : m < 2 ^ 64) (hn : n < 2 ^ 64) (h : (g.after m).word = (g.after n).word) : m = n :=
  (g.existsUnique_word_after 0 (g.after n).word).unique ⟨by omega, h⟩ ⟨by omega, rfl⟩

end Generator

end Behavior
