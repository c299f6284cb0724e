import Behavior.Entity
import Behavior.Search
/-!
# Binary search finds

On an ascending list the search ends at the element sought, or between those below and those above it.
-/

namespace Behavior

/-- The candidate that is left is the last one that does not lie above, if there is any. -/
theorem narrow_spec {probe : Nat → Ordering} (mono : ∀ i j, i ≤ j → probe i = .gt → probe j = .gt)
    {size base : Nat} (hsize : 0 < size) :
    base ≤ narrow probe size base ∧ narrow probe size base < base + size ∧
      (narrow probe size base = base ∨ probe (narrow probe size base) ≠ .gt) ∧
      ∀ j, narrow probe size base < j → j < base + size → probe j = .gt := by
  fun_induction narrow probe size base with
  | case1 size base h => exact ⟨Nat.le_refl _, by omega, .inl rfl, fun j hj hj' => by omega⟩
  | case2 size base h half ih =>
      have hhalf : half < size ∧ 0 < half ∧ half ≤ size - half := by omega
      obtain ⟨hle, hlt, hend, habove⟩ := ih (by omega)
      by_cases hp : probe (base + half) = .gt
      · simp only [hp, if_true, reduceDIte] at hle hlt hend habove ⊢
        refine ⟨hle, by omega, hend, fun j hj hj' => ?_⟩
        by_cases hin : j < base + (size - half)
        · exact habove j hj hin
        · exact mono (base + half) j (by omega) hp
      · simp only [hp, if_false, reduceDIte] at hle hlt hend habove ⊢
        refine ⟨by omega, by omega, .inr ?_, fun j hj hj' => habove j hj (by omega)⟩
        rcases hend with hend | hend
        · rwa [hend]
        · exact hend

variable {α : Type} {probe : α → Ordering} {xs : List α} {x y : α} {i j : Nat}

/-- The probe ascends strictly along the list. -/
def Ascends (probe : α → Ordering) (xs : List α) : Prop :=
  xs.Pairwise fun x y => probe x ≠ .lt → probe y = .gt

theorem Ascends.gt (h : Ascends probe xs) (hx : xs[i]? = some x) (hy : xs[j]? = some y) (hij : i < j)
    (hne : probe x ≠ .lt) : probe y = .gt := by
  obtain ⟨hi, rfl⟩ := List.getElem?_eq_some_iff.mp hx
  obtain ⟨hj, rfl⟩ := List.getElem?_eq_some_iff.mp hy
  exact List.pairwise_iff_getElem.mp h i j hi hj hij hne

/-- How the element at an index lies; past the end, above. -/
def probeAt (probe : α → Ordering) (xs : List α) (i : Nat) : Ordering := (xs[i]?.map probe).getD .gt

theorem probeAt_of_some (hx : xs[i]? = some x) : probeAt probe xs i = probe x := by
  rw [probeAt, hx]; rfl

theorem Ascends.mono (h : Ascends probe xs) (hij : i ≤ j) (hi : probeAt probe xs i = .gt) :
    probeAt probe xs j = .gt := by
  cases hy : xs[j]? with
  | none => rw [probeAt, hy]; rfl
  | some y =>
      rcases Nat.eq_or_lt_of_le hij with rfl | hlt
      · exact hi
      · have hx := List.getElem?_eq_getElem (Nat.lt_trans hlt (List.getElem?_eq_some_iff.mp hy).1)
        rw [probeAt_of_some hx] at hi
        rw [probeAt_of_some hy]
        exact h.gt hx hy hlt (by simp [hi])

theorem search_eq (hne : xs ≠ []) {r : Nat} (hr : narrow (probeAt probe xs) xs.length 0 = r) :
    search probe xs = match probeAt probe xs r with
      | .eq => .found r
      | .lt => .missing (r + 1)
      | .gt => .missing r := by
  rw [search, if_neg (by simpa using hne), ← hr]
  rfl

/-- A search of an ascending list ends at the element sought, or at the place between those below and those
above. -/
theorem search_spec (h : Ascends probe xs) :
    (∃ i x, search probe xs = .found i ∧ xs[i]? = some x ∧ probe x = .eq) ∨
      ∃ i, search probe xs = .missing i ∧ i ≤ xs.length ∧
        (∀ j y, xs[j]? = some y → j < i → probe y = .lt) ∧ ∀ j y, xs[j]? = some y → i ≤ j → probe y = .gt := by
  by_cases hempty : xs = []
  · subst hempty
    exact .inr ⟨0, rfl, Nat.le_refl _, by simp, by simp⟩
  obtain ⟨-, hlt, hend, habove⟩ :=
    @narrow_spec (probeAt probe xs) (fun i j => h.mono) xs.length 0 (List.length_pos_iff.mpr hempty)
  generalize hr : narrow (probeAt probe xs) xs.length 0 = r at hlt hend habove
  have hsearch := search_eq hempty hr
  obtain ⟨x, hx⟩ : ∃ x, xs[r]? = some x := ⟨_, List.getElem?_eq_getElem (by omega)⟩
  rw [probeAt_of_some hx] at hsearch hend
  have habove : ∀ j y, xs[j]? = some y → r < j → probe y = .gt := fun j y hy hj => by
    have hgt := habove j hj (by have := (List.getElem?_eq_some_iff.mp hy).1; omega)
    rwa [probeAt_of_some hy] at hgt
  cases hp : probe x with
  | eq => exact .inl ⟨r, x, by rw [hsearch, hp], hx, hp⟩
  | lt =>
      refine .inr ⟨r + 1, by rw [hsearch, hp], by omega, fun j y hy hj => ?_, habove⟩
      rcases Nat.eq_or_lt_of_le (Nat.le_of_lt_succ hj) with rfl | hj
      · rwa [← Option.some.inj (hx.symm.trans hy)]
      · cases hpy : probe y with
        | lt => rfl
        | eq | gt =>
            have := h.gt hy hx hj (by simp [hpy])
            simp [hp] at this
  | gt =>
      have hzero : r = 0 := hend.resolve_right fun h => h hp
      refine .inr ⟨r, by rw [hsearch, hp], by omega, fun j y hy hj => by omega, fun j y hy hj => ?_⟩
      rcases Nat.eq_or_lt_of_le hj with rfl | hj
      · rwa [← Option.some.inj (hx.symm.trans hy)]
      · exact habove j y hy hj

/-! ## By identity -/

variable {f : α → EntityId} {id : EntityId}

theorem ascends_compare (h : xs.Pairwise fun x y => f x < f y) : Ascends (fun x => compare (f x) id) xs := by
  refine h.imp fun {x y} hxy hne => EntityId.compare_eq_gt.mpr ?_
  cases hx : compare (f x) id with
  | lt => exact absurd hx hne
  | eq => rwa [← Std.LawfulEqOrd.eq_of_compare hx]
  | gt => exact EntityId.lt_trans (EntityId.compare_eq_gt.mp hx) hxy

/-- The search by identity ends at the one element that has it, or at the place where it would have to
stand. -/
theorem search_id (h : xs.Pairwise fun x y => f x < f y) :
    (∃ i x, search (fun x => compare (f x) id) xs = .found i ∧ xs[i]? = some x ∧ f x = id) ∨
      ∃ i, search (fun x => compare (f x) id) xs = .missing i ∧ i ≤ xs.length ∧
        (∀ x ∈ xs.take i, f x < id) ∧ ∀ x ∈ xs.drop i, id < f x := by
  rcases search_spec (ascends_compare h) with ⟨i, x, hs, hx, heq⟩ | ⟨i, hs, hi, hbelow, habove⟩
  · exact .inl ⟨i, x, hs, hx, Std.LawfulEqOrd.eq_of_compare heq⟩
  · refine .inr ⟨i, hs, hi, fun x hx => ?_, fun x hx => ?_⟩
    · obtain ⟨j, hj⟩ := List.getElem?_of_mem hx
      rw [List.getElem?_take] at hj
      split at hj
      · exact EntityId.compare_eq_lt.mp (hbelow j x hj ‹_›)
      · cases hj
    · obtain ⟨j, hj⟩ := List.getElem?_of_mem hx
      rw [List.getElem?_drop] at hj
      exact EntityId.compare_eq_gt.mp (habove (i + j) x hj (Nat.le_add_right i j))

theorem isFound_search (h : xs.Pairwise fun x y => f x < f y) :
    (search (fun x => compare (f x) id) xs).isFound = true ↔ ∃ x ∈ xs, f x = id := by
  rcases search_id h with ⟨i, x, hs, hx, heq⟩ | ⟨i, hs, hi, hbelow, habove⟩
  · rw [hs]
    exact iff_of_true rfl ⟨x, List.mem_of_getElem? hx, heq⟩
  · rw [hs]
    refine iff_of_false (by simp [Place.isFound]) ?_
    rintro ⟨x, hx, rfl⟩
    rw [← List.take_append_drop i xs, List.mem_append] at hx
    rcases hx with hx | hx
    · exact EntityId.lt_irrefl (hbelow x hx)
    · exact EntityId.lt_irrefl (habove x hx)

end Behavior
