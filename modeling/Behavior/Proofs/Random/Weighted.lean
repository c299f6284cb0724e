import Behavior.Random.Weighted
/-!
# Choices by weight

A choice falls on a weight that can win, whatever is drawn (`Generator.eligible_of_chooseWeighted`).
-/

namespace Behavior

/-- A choice falls on a weight that can win, unless it is left with the one carried along. -/
theorem bucket_spec {pick : Float32} {last : Option Nat} {i k : Nat} {weights : List Float32}
    (h : bucket pick last i weights = some k) :
    last = some k ∨ ∃ j w, k = i + j ∧ weights[j]? = some w ∧ eligible w := by
  induction weights generalizing pick last i with
  | nil => exact .inl h
  | cons w ws ih =>
      have later {pick last} (h : bucket pick last (i + 1) ws = some k) :
          last = some k ∨ ∃ j w', k = i + j ∧ (w :: ws)[j]? = some w' ∧ eligible w' := by
        refine (ih h).imp_right ?_
        rintro ⟨j, w', rfl, hw', heligible⟩
        exact ⟨j + 1, w', by omega, hw', heligible⟩
      simp only [bucket] at h
      split at h
      · next heligible =>
        have here : ∃ j w', i = i + j ∧ (w :: ws)[j]? = some w' ∧ eligible w' := ⟨0, w, rfl, rfl, heligible⟩
        split at h
        · obtain rfl := Option.some.inj h
          exact .inr here
        · refine .inr ((later h).elim (fun heq => ?_) id)
          obtain rfl := Option.some.inj heq
          exact here
      · exact later h

theorem bucket_eq_none_iff {pick : Float32} {last : Option Nat} {i : Nat} {weights : List Float32} :
    bucket pick last i weights = none ↔ last = none ∧ ∀ w ∈ weights, ¬ eligible w := by
  induction weights generalizing pick last i with
  | nil => simp [bucket]
  | cons w ws ih =>
      simp only [bucket]
      split
      · split <;> simp_all
      · simp_all

namespace Generator

variable {weights : List Float32} {g : Generator}

theorem eligible_of_chooseWeighted {k : Nat} (h : (g.chooseWeighted weights).1 = some k) :
    ∃ w, weights[k]? = some w ∧ eligible w := by
  simp only [chooseWeighted] at h
  split at h
  · cases h
  · obtain hlast | ⟨j, w, rfl, hw, heligible⟩ := bucket_spec h
    · cases hlast
    · exact ⟨w, by rwa [Nat.zero_add], heligible⟩

theorem lt_of_chooseWeighted {k : Nat} (h : (g.chooseWeighted weights).1 = some k) : k < weights.length := by
  obtain ⟨w, hw, -⟩ := eligible_of_chooseWeighted h
  exact (List.getElem?_eq_some_iff.mp hw).1

end Generator

end Behavior
