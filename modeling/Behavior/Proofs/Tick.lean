import Behavior.Proofs.Random.Mixing
import Behavior.Tick
/-!
# Streams kept apart

A stream is asked for by seed, entity, stream number and tick number. Each of the four can be read back from the
generator if one knows the other three, wherever the sums on the way wrap around; so two requests that differ in
one of them never get the same generator, nor the same first word (`Tick.generator_ne`).
-/

namespace Behavior

namespace Tick

variable {t t' : Tick} {e e' : EntityId} {s s' : UInt64}

theorem generator_eq_iff : t.generator e s = t'.generator e' s' ↔
    t.seed ^^^ mix (e.val + increment) ^^^ mix (mix (s ^^^ mix (t.number + 1))) =
      t'.seed ^^^ mix (e'.val + increment) ^^^ mix (mix (s' ^^^ mix (t'.number + 1))) := by
  simp [generator, deriveSeed]

/-- Requests that differ in exactly one of seed, entity, stream number and tick number get generators in different
states, and so different first words. -/
theorem generator_ne
    (h : (t.seed ≠ t'.seed ∧ e = e' ∧ s = s' ∧ t.number = t'.number) ∨
      (t.seed = t'.seed ∧ e ≠ e' ∧ s = s' ∧ t.number = t'.number) ∨
      (t.seed = t'.seed ∧ e = e' ∧ s ≠ s' ∧ t.number = t'.number) ∨
      (t.seed = t'.seed ∧ e = e' ∧ s = s' ∧ t.number ≠ t'.number)) :
    (t.generator e s).state ≠ (t'.generator e' s').state ∧
      (t.generator e s).next.1 ≠ (t'.generator e' s').next.1 := by
  have hne : t.generator e s ≠ t'.generator e' s' := by
    rw [ne_eq, generator_eq_iff]
    obtain ⟨hseed, rfl, rfl, hnumber⟩ | ⟨hseed, hentity, rfl, hnumber⟩ | ⟨hseed, rfl, hstream, hnumber⟩ |
      ⟨hseed, rfl, rfl, hnumber⟩ := h
    · simpa [hnumber] using hseed
    · have hval : e.val ≠ e'.val := fun heq => hentity (congrArg EntityId.mk heq)
      simpa [hseed, hnumber] using hval
    · simpa [hseed, hnumber] using hstream
    · simpa [hseed] using hnumber
  exact ⟨fun hstate => hne (congrArg Generator.mk hstate), fun hword => hne (Generator.word_inj.mp hword)⟩

/-- At the last tick number the count wraps around to zero, and the stream is still another one. -/
theorem generator_ne_wrapping :
    (⟨0xFFFFFFFFFFFFFFFF, 100, 100, 42⟩ : Tick).number ≠ (⟨0, 50, 150, 42⟩ : Tick).number ∧
    ((⟨0xFFFFFFFFFFFFFFFF, 100, 100, 42⟩ : Tick).generator ⟨1⟩ 7).next.1 ≠
      ((⟨0, 50, 150, 42⟩ : Tick).generator ⟨1⟩ 7).next.1 := by
  have hnumber : (⟨0xFFFFFFFFFFFFFFFF, 100, 100, 42⟩ : Tick).number ≠ (⟨0, 50, 150, 42⟩ : Tick).number := by decide
  refine ⟨hnumber, (generator_ne (t := ⟨0xFFFFFFFFFFFFFFFF, 100, 100, 42⟩) (s := 7) ?_).2⟩
  exact .inr (.inr (.inr ⟨rfl, rfl, rfl, hnumber⟩))

end Tick

end Behavior
