import Behavior.Proofs.Tree.Layout
import Behavior.Tree.Execution
/-!
# Forgetting subtrees

Inside and outside of a tick, forgetting a subtree takes away the records of its ids for one entity, and
nothing else from the memory.
-/

namespace Behavior.BehaviorTree

variable {χ : Type} {t : BehaviorTree χ} {scene : Scene} {f : Frame χ} {id n : NodeId} {e e' : EntityId}
  {m : Memory}

theorem get?_resetState :
    (t.resetState id e m).get? n e' = if n ∈ t.subtree id ∧ e' = e then none else m.get? n e' := by
  unfold resetState
  induction t.subtree id generalizing m with
  | nil => simp
  | cons k ks ih =>
      rw [List.foldl_cons, ih, Memory.get?_forget]
      grind

/-- Only records are forgotten. -/
theorem resetState_eq : t.resetState id e m = { m with records := (t.resetState id e m).records } := by
  unfold resetState
  induction t.subtree id generalizing m with
  | nil => rfl
  | cons k ks ih =>
      rw [List.foldl_cons, ih]
      rfl

theorem completed_resetState : (t.resetState id e m).completed = m.completed := by rw [resetState_eq]

@[simp] theorem filtered_resetState : (t.resetState id e m).filtered = m.filtered := by rw [resetState_eq]

@[simp] theorem completions_resetState : (t.resetState id e m).completions n e' = m.completions n e' := by
  rw [Memory.completions, completed_resetState, Memory.completions]

theorem status_resetState :
    (t.resetState id e m).status n e = if n ∈ t.subtree id then .unknown else m.status n e := by
  simp only [Memory.status_eq_get?, get?_resetState]
  split <;> simp_all

private theorem memory_foldl_forgetTraced (ids : List NodeId) :
    (ids.foldl (fun f k => f.forgetTraced scene k) f).memory
      = ids.foldl (fun m k => m.forget k scene.entity) f.memory := by
  induction ids generalizing f with
  | nil => rfl
  | cons k ks ih => simp only [List.foldl_cons, ih, Frame.memory_forgetTraced]

private theorem steps_foldl_forgetTraced (ids : List NodeId) :
    (ids.foldl (fun f k => f.forgetTraced scene k) f).steps = f.steps := by
  induction ids generalizing f with
  | nil => rfl
  | cons k ks ih => simp only [List.foldl_cons, ih, Frame.steps_forgetTraced]

@[simp] theorem memory_reset : (t.reset scene id f).memory = t.resetState id scene.entity f.memory :=
  memory_foldl_forgetTraced _

@[simp] theorem steps_reset : (t.reset scene id f).steps = f.steps := steps_foldl_forgetTraced _

@[simp] theorem memory_resetBelow : (t.resetBelow scene id f).memory = t.resetState id scene.entity f.memory := by
  unfold resetBelow resetState
  split <;> rename_i h <;> rw [h]
  · rfl
  · rw [memory_foldl_forgetTraced]; rfl

@[simp] theorem steps_resetBelow : (t.resetBelow scene id f).steps = f.steps := by
  unfold resetBelow
  split
  · rfl
  · rw [steps_foldl_forgetTraced, Frame.steps_forget]

theorem resetAll_cons {c : NodeId} {cs : List NodeId} :
    t.resetAll scene (c :: cs) f = t.resetAll scene cs (t.reset scene c f) := rfl

@[simp] theorem steps_resetAll {cs : List NodeId} : (t.resetAll scene cs f).steps = f.steps := by
  induction cs generalizing f with
  | nil => rfl
  | cons c cs ih => rw [resetAll_cons, ih, steps_reset]

/-! ## Node by node -/

open TreeNode

/-- Forgetting a range of ids that siblings share is forgetting one sibling after the other. -/
theorem HoldsAll.resetAll {ns : List (TreeNode χ)} {id : Nat} (h : t.HoldsAll id ns) :
    t.resetAll scene (siblingIds id ns) f = (List.range' id (countAll ns)).foldl (·.forgetTraced scene ·) f := by
  induction ns generalizing id f with
  | nil => rfl
  | cons n ns ih =>
      rw [siblingIds, resetAll_cons, ih h.tail, countAll, ← List.range'_append_1, List.foldl_append,
        BehaviorTree.reset, h.head.subtree]

/-- Forgetting a subtree is forgetting its root and then its root's children. -/
theorem Holds.reset {n : TreeNode χ} {id : Nat} (h : t.Holds id n) :
    t.reset scene id f = t.resetAll scene (siblingIds (id + 1) n.children) (f.forgetTraced scene id) := by
  rw [h.children.resetAll, BehaviorTree.reset, h.subtree, count_eq, Nat.add_comm 1, List.range'_succ,
    List.foldl_cons]

theorem Holds.resetBelow {n : TreeNode χ} {id : Nat} (h : t.Holds id n) :
    t.resetBelow scene id f = t.resetAll scene (siblingIds (id + 1) n.children) (f.forget scene id) := by
  rw [h.children.resetAll, BehaviorTree.resetBelow, h.subtree, count_eq, Nat.add_comm 1, List.range'_succ]

end Behavior.BehaviorTree
