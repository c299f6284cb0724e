import Behavior.Tree.Execution
import Behavior.Proofs.Random.Shuffle
import Behavior.Proofs.Tree.Layout
/-!
# Executing a node

How a node runs depends on the runner of its children and on nothing else below it. In a nested tree the
bound on the depth is therefore never met, and executing a node is visiting it with the execution itself
as the runner of the children (`BehaviorTree.Nested.execute_of_slot`).
-/

namespace Behavior.BehaviorTree

variable {χ : Type} {t : BehaviorTree χ} {scene : Scene} {run run' : Runner χ}

/-! ## Runners that agree on the children -/

theorem sequenceFrom_congr {id i cs last f} (h : ∀ c ∈ cs, run c = run' c) :
    t.sequenceFrom scene run id i cs last f = t.sequenceFrom scene run' id i cs last f := by
  induction cs generalizing i last f with
  | nil => rfl
  | cons c cs ih =>
      have ih {i last f} := @ih i last f fun c' hc' => h c' (by simp [hc'])
      simp only [sequenceFrom, h c (by simp), ih]

theorem priorityFrom_congr {id i cs f} (h : ∀ c ∈ cs, run c = run' c) :
    t.priorityFrom scene run id i cs f = t.priorityFrom scene run' id i cs f := by
  induction cs generalizing i f with
  | nil => rfl
  | cons c cs ih =>
      have ih {i f} := @ih i f fun c' hc' => h c' (by simp [hc'])
      simp only [priorityFrom, h c (by simp), ih]

theorem runEach_congr {cs overall f} (h : ∀ c ∈ cs, run c = run' c) :
    t.runEach scene run cs overall f = t.runEach scene run' cs overall f := by
  induction cs generalizing overall f with
  | nil => rfl
  | cons c cs ih =>
      have ih {overall f} := @ih overall f fun c' hc' => h c' (by simp [hc'])
      simp only [runEach, h c (by simp), ih]

theorem parallelFrom_congr {cs running f} (h : ∀ c ∈ cs, run c = run' c) :
    t.parallelFrom scene run cs running f = t.parallelFrom scene run' cs running f := by
  induction cs generalizing running f with
  | nil => rfl
  | cons c cs ih =>
      have ih {running f} := @ih running f fun c' hc' => h c' (by simp [hc'])
      simp only [parallelFrom, h c (by simp), ih]

theorem decorate_congr {map : Status → Status} {cs : List NodeId} {f} (h : ∀ c ∈ cs, run c = run' c) :
    decorate run map cs f = decorate run' map cs f := by
  cases cs with
  | nil => rfl
  | cons c cs => simp only [decorate, List.head?_cons, h c (by simp)]

theorem limit_congr {id amount} {cs : List NodeId} {f} (h : ∀ c ∈ cs, run c = run' c) :
    limit scene run id amount cs f = limit scene run' id amount cs f := by
  cases cs with
  | nil => rfl
  | cons c cs => simp only [limit, List.head?_cons, h c (by simp)]

theorem probabilitySelector_congr {id weights cs f} (h : ∀ c ∈ cs, run c = run' c) :
    t.probabilitySelector scene run id weights cs f = t.probabilitySelector scene run' id weights cs f := by
  simp only [probabilitySelector]
  split
  · rfl
  · rename_i chosen _
    cases hc : cs[chosen]? with
    | none => rfl
    | some c => simp only [h c (List.mem_of_getElem? hc)]

theorem perform_congr {id s f} (h : ∀ c ∈ s.children, run c = run' c) :
    t.perform scene run id s f = t.perform scene run' id s f := by
  unfold perform
  split
  · exact sequenceFrom_congr fun c hc => h c (List.mem_of_mem_drop hc)
  · simp only [prioritySelector]
    rw [priorityFrom_congr fun c hc => h c (List.mem_of_mem_drop hc)]
  · exact probabilitySelector_congr h
  · exact runEach_congr fun c hc => h c ((Generator.shuffle_perm _ _).mem_iff.mp hc)
  · simp only [parallel, parallelFrom_congr h]
  · exact decorate_congr h
  · exact decorate_congr h
  · exact decorate_congr h
  · exact limit_congr h
  · rfl

theorem visit_congr [Character χ] {id s f} (h : ∀ c ∈ s.children, run c = run' c) :
    t.visit scene run id s f = t.visit scene run' id s f := by
  simp only [visit, attempt, perform_congr h]

/-! ## The bound on the depth -/

/-- Whatever visiting a node brings about if it holds of the children's executions holds of every
execution. -/
theorem Nested.induction (nested : t.Nested) (P : Nat → Prop)
    (visit : ∀ id s, t.slot? id = some s → (∀ c ∈ s.children, P c) → P id) {id : Nat} {s}
    (h : t.slot? id = some s) : P id := by
  induction hn : t.size - id using Nat.strongRecOn generalizing id s with
  | ind n ih =>
      refine visit id s h fun c hc => ?_
      obtain ⟨s', hs'⟩ := nested.exists_slot h hc
      have := (nested.below h hc (nested.mem_self hs')).1
      have := lt_size h
      exact ih (t.size - c) (by omega) hs' rfl

variable [Character χ]

/-- Any two bounds that the ids below a node do not exceed give the same execution. -/
theorem Nested.executeTo_congr (nested : t.Nested) {d d' id : Nat} (h : t.size - id ≤ d) (h' : t.size - id ≤ d') :
    t.executeTo scene d id = t.executeTo scene d' id := by
  induction d generalizing d' id with
  | zero =>
      funext f
      have hnone : t.slot? id = none := Array.getElem?_eq_none (by simp only [size] at h; omega)
      cases d' <;> simp [executeTo, hnone]
  | succ d ih =>
      funext f
      cases hs : t.slot? id with
      | none => cases d' <;> simp [executeTo, hs]
      | some s =>
          have hlt := lt_size hs
          cases d' with
          | zero => omega
          | succ d' =>
              simp only [executeTo, hs]
              refine visit_congr fun c hc => ?_
              obtain ⟨s', hs'⟩ := nested.exists_slot hs hc
              have := (nested.below hs hc (nested.mem_self hs')).1
              exact ih (by omega) (by omega)

theorem Nested.execute_of_slot (nested : t.Nested) {id : Nat} {s f} (h : t.slot? id = some s) :
    t.execute scene id f = t.visit scene (t.execute scene) id s f := by
  have hlt := lt_size h
  obtain ⟨d, hd⟩ : ∃ d, t.size - id = d + 1 := ⟨t.size - id - 1, by omega⟩
  simp only [execute, hd, executeTo, h]
  refine visit_congr fun c hc => ?_
  obtain ⟨s', hs'⟩ := nested.exists_slot h hc
  have := (nested.below h hc (nested.mem_self hs')).1
  exact nested.executeTo_congr (by omega) (Nat.le_refl _)

theorem execute_of_none {id : Nat} {f} (h : t.slot? id = none) : t.execute scene id f = (.unknown, f) := by
  have : t.size - id = 0 := Nat.sub_eq_zero_of_le (Array.getElem?_eq_none_iff.mp h)
  simp only [execute, this, executeTo]

end Behavior.BehaviorTree
