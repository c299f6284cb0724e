import Behavior.Proofs.Random.Weighted
import Behavior.Proofs.Single
/-!
# Totals of weights

However the running sums are rounded, weights come to nothing only if none of them can win
(`totalWeight_le_zero_iff`); so a choice falls on none exactly then (`Generator.chooseWeighted_eq_none_iff`).
-/

namespace Behavior

open Single
open Float.Model (UnpackedFloat)
open Float.Model.UnpackedFloat

theorem unpack_zero : (0 : Float32).toModel.unpack = .zero .positive := by rfl

theorem positive_of_eligible {w : Float32} (h : eligible w) : Positive w.toModel.unpack := by
  simp only [eligible, Bool.and_eq_true, decide_eq_true_eq] at h
  obtain ⟨hfinite, hlt⟩ := h
  have hfinite : w.toModel.unpack.isFinite = true := hfinite
  have hlt : UnpackedFloat.lt (0 : Float32).toModel.unpack w.toModel.unpack = true := of_decide_eq_true hlt
  rw [unpack_zero] at hlt
  cases hw : w.toModel.unpack with
  | infinity | notANumber => simp [hw, UnpackedFloat.isFinite] at hfinite
  | zero => simp [hw, UnpackedFloat.lt, UnpackedFloat.compare] at hlt
  | finite s m e hm =>
      cases s with
      | negative => simp [hw, UnpackedFloat.lt, UnpackedFloat.compare] at hlt
      | positive => exact .finite (fits_unpack hw)

theorem positive_foldl {weights : List Float32} {x : Float32} (hweights : ∀ w ∈ weights, eligible w)
    (hx : Positive x.toModel.unpack) : Positive (weights.foldl (· + ·) x).toModel.unpack := by
  induction weights generalizing x with
  | nil => exact hx
  | cons w ws ih =>
      have hw := positive_of_eligible (hweights w List.mem_cons_self)
      exact ih (fun w' hw' => hweights w' (List.mem_cons_of_mem w hw')) (hx.add hw).unpack_pack

theorem not_le_zero {x : Float32} (hx : Positive x.toModel.unpack) : ¬ x ≤ 0 := by
  intro hle
  have hle : UnpackedFloat.le x.toModel.unpack (0 : Float32).toModel.unpack = true := of_decide_eq_true hle
  rw [unpack_zero] at hle
  cases hx' : x.toModel.unpack <;> rw [hx'] at hx hle <;> cases hx <;> cases hle

theorem positive_zero_add {w : Float32} (hw : eligible w) : Positive (0 + w).toModel.unpack := by
  have hpositive := positive_of_eligible hw
  have hadd : UnpackedFloat.add .binary32 (.zero .positive) w.toModel.unpack = w.toModel.unpack := by
    cases h : w.toModel.unpack <;> rw [h] at hpositive <;> cases hpositive <;> rfl
  have hunpack : Positive (unpack .binary32 (pack .binary32
      (UnpackedFloat.add .binary32 (0 : Float32).toModel.unpack w.toModel.unpack))) := by
    rw [unpack_zero, hadd]
    exact hpositive.unpack_pack
  exact hunpack

/-- Weights come to nothing exactly if none of them can win. -/
theorem totalWeight_le_zero_iff {weights : List Float32} :
    totalWeight weights ≤ 0 ↔ ∀ w ∈ weights, ¬ eligible w := by
  rw [totalWeight, ← List.filter_eq_nil_iff]
  have heligible : ∀ w ∈ weights.filter eligible, eligible w := fun w hw => (List.mem_filter.mp hw).2
  cases hwinning : weights.filter eligible with
  | nil => exact iff_of_true (by decide) rfl
  | cons w ws =>
      rw [hwinning] at heligible
      obtain ⟨hw, hws⟩ := List.forall_mem_cons.mp heligible
      rw [List.foldl_cons]
      exact iff_of_false (not_le_zero (positive_foldl hws (positive_zero_add hw))) (List.cons_ne_nil w ws)

/-- Nothing is chosen exactly if no weight can win, whatever is drawn. -/
theorem Generator.chooseWeighted_eq_none_iff {weights : List Float32} {g : Generator} :
    (g.chooseWeighted weights).1 = none ↔ ∀ w ∈ weights, ¬ eligible w := by
  simp only [chooseWeighted]
  split
  · next htotal => exact iff_of_true rfl (totalWeight_le_zero_iff.mp htotal)
  · rw [bucket_eq_none_iff]
    exact and_iff_right rfl

end Behavior
