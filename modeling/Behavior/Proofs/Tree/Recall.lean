import Behavior.Proofs.Tree.Interpreter
import Behavior.Proofs.Tree.Locality
/-!
# Memories of hierarchies

What a memory holds under the ids of a hierarchy, gathered at its nodes.
-/

namespace Behavior

variable {χ : Type}

def Frame.world (f : Frame χ) : World χ where
  character := f.character
  board := f.board
  filtered := f.memory.filtered
  received := f.received
  journal := f.journal
  steps := f.steps

namespace TreeNode

mutual

/-- What a memory holds about a hierarchy that stands at `id`. -/
def recalled (m : Memory) (e : EntityId) (id : NodeId) : TreeNode χ → Recall
  | ⟨_, _, _, children⟩ =>
    { record := m.getD id e, completions := m.completions id e, inner := recalledAll m e (id + 1) children }

def recalledAll (m : Memory) (e : EntityId) (id : NodeId) : List (TreeNode χ) → List Recall
  | [] => []
  | n :: ns => n.recalled m e id :: recalledAll m e (id + n.count) ns

end

variable {m m' : Memory} {e : EntityId} {id : Nat} {n : TreeNode χ} {ns : List (TreeNode χ)}

theorem recalled_eq : n.recalled m e id =
    { record := m.getD id e, completions := m.completions id e, inner := recalledAll m e (id + 1) n.children } := by
  cases n; rfl

@[simp] theorem record_recalled : (n.recalled m e id).record = m.getD id e := by cases n; rfl

@[simp] theorem completions_recalled : (n.recalled m e id).completions = m.completions id e := by cases n; rfl

@[simp] theorem inner_recalled : (n.recalled m e id).inner = recalledAll m e (id + 1) n.children := by cases n; rfl

mutual

theorem recalled_congr : (n : TreeNode χ) → {id : Nat} →
    (∀ k, id ≤ k → k < id + n.count → m'.Agree m k e) → n.recalled m' e id = n.recalled m e id
  | ⟨label, condition, kind, children⟩, id, h => by
      have hself : m'.Agree m id e := h id (Nat.le_refl _) (Nat.lt_add_of_pos_right (count_pos _))
      simp only [recalled, Memory.getD_congr hself.1, hself.2]
      rw [recalledAll_congr children fun k hk hk' => h k (Nat.le_of_succ_le hk) (by simp only [count]; omega)]

theorem recalledAll_congr : (ns : List (TreeNode χ)) → {id : Nat} →
    (∀ k, id ≤ k → k < id + countAll ns → m'.Agree m k e) → recalledAll m' e id ns = recalledAll m e id ns
  | [], _, _ => rfl
  | n :: ns, id, h => by
      simp only [recalledAll]
      rw [recalled_congr n fun k hk hk' => h k hk (by simp only [countAll]; omega),
        recalledAll_congr ns fun k hk hk' => h k (by omega) (by simp only [countAll]; omega)]

end

theorem length_recalledAll : (recalledAll m e id ns).length = ns.length := by
  induction ns generalizing id with
  | nil => rfl
  | cons n ns ih => simp [recalledAll, ih]

mutual

theorem recalled_empty : (n : TreeNode χ) → {id : Nat} → n.recalled {} e id = n.blank
  | ⟨_, _, _, children⟩, id => by
      simp [recalled, blank, recalledAll_empty children, Memory.getD_eq]

theorem recalledAll_empty : (ns : List (TreeNode χ)) → {id : Nat} → recalledAll {} e id ns = blankAll ns
  | [], _ => rfl
  | n :: ns, id => by simp only [recalledAll, blankAll, recalled_empty n, recalledAll_empty ns]

end

/-- A hierarchy with what a frame holds about it. -/
def site (e : EntityId) (id : NodeId) (n : TreeNode χ) (f : Frame χ) : Site χ := ⟨n.recalled f.memory e id, f.world⟩

/-- Where nothing but the node's own entry differs, its children remember the same. -/
theorem site_of_agree {f g : Frame χ} (h : ∀ k, k ≠ id → g.memory.Agree f.memory k e) :
    n.site e id g =
      { recalled :=
          { record := g.memory.getD id e, completions := g.memory.completions id e
            inner := recalledAll f.memory e (id + 1) n.children }
        world := g.world } := by
  rw [site, recalled_eq, recalledAll_congr n.children fun k hk _ => h k (Nat.ne_of_gt hk)]

end TreeNode

namespace BehaviorTree

open TreeNode

variable {t : BehaviorTree χ} {e : EntityId} {id c i : Nat} {n : TreeNode χ} {ns : List (TreeNode χ)}
  {f g : Frame χ} {m m' : Memory}

/-- The child that stands at the id at some index is the one at that index, with its memory there. -/
theorem HoldsAll.at (h : t.HoldsAll id ns) (hc : (siblingIds id ns)[i]? = some c) :
    ∃ k, t.Holds c k ∧ ns[i]? = some k ∧ ∀ m e, (recalledAll m e id ns)[i]? = some (k.recalled m e c) := by
  induction ns generalizing id i with
  | nil => simp [siblingIds] at hc
  | cons n ns ih =>
      cases i with
      | zero =>
          simp only [siblingIds, List.getElem?_cons_zero, Option.some.injEq] at hc
          subst hc
          exact ⟨n, h.head, rfl, fun _ _ => rfl⟩
      | succ i =>
          obtain ⟨k, hk, hi, hr⟩ := ih h.tail (by simpa [siblingIds] using hc)
          exact ⟨k, hk, by simpa using hi, fun m e => by simpa [recalledAll] using hr m e⟩

/-- Changing the memory in the subtree of one sibling changes that sibling's memory only. -/
theorem HoldsAll.set_recalled (h : t.HoldsAll id ns) (hc : (siblingIds id ns)[i]? = some c) (hi : ns[i]? = some n)
    (agree : ∀ k, k ∉ t.subtree c → m'.Agree m k e) :
    (recalledAll m e id ns).set i (n.recalled m' e c) = recalledAll m' e id ns := by
  induction ns generalizing id i with
  | nil => cases hi
  | cons n' ns ih =>
      cases i with
      | zero =>
          simp only [siblingIds, List.getElem?_cons_zero, Option.some.injEq] at hc hi
          subst hc hi
          simp only [recalledAll, List.set_cons_zero]
          rw [recalledAll_congr ns fun k hk _ => agree k fun hin => by
            have := h.head.mem_subtree.mp hin; omega]
      | succ i =>
          have hc : (siblingIds (id + n'.count) ns)[i]? = some c := by simpa [siblingIds] using hc
          have hi : ns[i]? = some n := by simpa using hi
          obtain ⟨_, _, hh, hle, _⟩ := h.tail.mem (List.mem_of_getElem? hc)
          simp only [recalledAll, List.set_cons_succ, ih h.tail hc hi]
          rw [recalled_congr n' fun k hk hk' => agree k fun hin => by
            have := hh.mem_subtree.mp hin; omega]

end BehaviorTree

end Behavior
