import Behavior.Proofs.Tree.Addresses
/-!
# The arena

A hierarchy can be laid out in place: each node is pushed onto an array, its descendants follow, and only then are the
ids of its children and the end of its range put into its slot (`TreeNode.flatten`). As long as the ids fit a machine
word this gives the layout that trees are made of. Main statement: `BehaviorTree.arena_layout`.
-/

namespace Behavior

variable {χ : Type}

namespace TreeNode

/-! ## Laying out in place -/

mutual

/-- Pushes a node and its descendants onto the slots; gives the id of the node, too. -/
def flatten (slots : Array (Slot χ)) : TreeNode χ → UInt32 × Array (Slot χ)
  | ⟨label, condition, kind, children⟩ =>
    let id := UInt32.ofNat slots.size
    let slots := slots.push { label, condition, kind, children := [], stop := (id + 1).toNat }
    let (ids, slots) := flattenAll slots children
    let stop := UInt32.ofNat slots.size
    (id, slots.modify id.toNat fun s => { s with children := ids.map UInt32.toNat, stop := stop.toNat })

/-- Pushes several nodes and their descendants; gives the ids of these nodes, too. -/
def flattenAll (slots : Array (Slot χ)) : List (TreeNode χ) → List UInt32 × Array (Slot χ)
  | [] => ([], slots)
  | n :: ns =>
    let (id, slots) := n.flatten slots
    let (ids, slots) := flattenAll slots ns
    (id :: ids, slots)

end

theorem lt_of_mem_siblingIds {ns : List (TreeNode χ)} {id c : Nat} (h : c ∈ siblingIds id ns) :
    c < id + countAll ns := by
  induction ns generalizing id with
  | nil => cases h
  | cons n ns ih =>
      have := n.count_pos
      rw [countAll]
      rcases List.mem_cons.mp h with rfl | h
      · omega
      · have := ih h
        omega

theorem toNat_ofNat_siblingIds {ns : List (TreeNode χ)} {id : Nat} (h : id + countAll ns < UInt32.size) :
    ((siblingIds id ns).map UInt32.ofNat).map UInt32.toNat = siblingIds id ns := by
  rw [List.map_map]
  refine List.map_congr_left (fun c hc => ?_) |>.trans (List.map_id _)
  exact UInt32.toNat_ofNat_of_lt' (Nat.lt_trans (lt_of_mem_siblingIds hc) h)

/-- Putting something into the slot that was pushed before these. -/
theorem modify_push_append {α : Type} {xs : Array α} {x : α} {ys : List α} {f : α → α} :
    (xs.push x ++ ys.toArray).modify xs.size f = xs ++ (f x :: ys).toArray := by
  apply Array.toList_inj.mp
  simp [Array.toList_modify, List.modify_eq_take_drop]

mutual

theorem flatten_eq : (n : TreeNode χ) → {slots : Array (Slot χ)} → slots.size + n.count < UInt32.size →
    n.flatten slots = (UInt32.ofNat slots.size, slots ++ (n.layout slots.size).toArray)
  | ⟨label, condition, kind, children⟩, slots, h => by
      rw [count] at h
      have hid : (UInt32.ofNat slots.size).toNat = slots.size := UInt32.toNat_ofNat_of_lt' (by omega)
      have hall {s : Slot χ} := @flattenAll_eq children (slots.push s) (by rw [Array.size_push]; omega)
      have hsize {s : Slot χ} : (slots.push s ++ (layoutAll (slots.size + 1) children).toArray).size =
          slots.size + 1 + countAll children := by
        rw [Array.size_append, Array.size_push]
        exact congrArg _ (length_layoutAll (slots.size + 1) children)
      have hstop : (UInt32.ofNat (slots.size + 1 + countAll children)).toNat = slots.size + 1 + countAll children :=
        UInt32.toNat_ofNat_of_lt' (by omega)
      have hids := @toNat_ofNat_siblingIds _ children (slots.size + 1) (by omega)
      simp only [flatten, hall, Array.size_push, hid, hsize, hstop, hids, modify_push_append]
      rfl

theorem flattenAll_eq : (ns : List (TreeNode χ)) → {slots : Array (Slot χ)} → slots.size + countAll ns < UInt32.size →
    flattenAll slots ns = ((siblingIds slots.size ns).map UInt32.ofNat, slots ++ (layoutAll slots.size ns).toArray)
  | [], slots, _ => by simp [flattenAll, siblingIds, layoutAll]
  | n :: ns, slots, h => by
      rw [countAll] at h
      have hn := @flatten_eq n slots (by omega)
      have hsize : (slots ++ (n.layout slots.size).toArray).size = slots.size + n.count := by
        rw [Array.size_append]
        exact congrArg _ (length_layout slots.size n)
      have hns := @flattenAll_eq ns (slots ++ (n.layout slots.size).toArray) (by rw [hsize]; omega)
      rw [flattenAll, hn]
      simp only [hns, hsize]
      simp [siblingIds, layoutAll]

end

end TreeNode

namespace BehaviorTree

open TreeNode

/-- A tree is a hierarchy laid out in place. Its ids are the indexes of the nodes in pre-order, which is the ascending
order of their addresses; each node keeps what it has in the hierarchy, and its children in their order. The range of a
node holds the node itself and its descendants; its first child comes right after it, each further child where the range
of the one before ends, and the range of the last one ends where the node's does. So the hierarchy can be read off the
tree, and forgetting a node for an entity takes away what is recorded about the node and its descendants for that
entity, and nothing else. -/
theorem arena_layout (name : String) {root : TreeNode χ} (small : root.count < UInt32.size) :
    let t := ofNode name root
    ((root.flatten #[]).2 = t.slots ∧ t.size = root.count) ∧
    ((∀ p, p ∈ root.addresses ↔ (root.descendant? p).isSome) ∧ root.addresses.Pairwise (· < ·) ∧
      root.addresses.length = t.size) ∧
    (∀ (k : Nat) p, root.addresses[k]? = some p → ∃ n s, root.descendant? p = some n ∧ t.slot? k = some s ∧
      s.label = n.label ∧ s.condition = n.condition ∧ s.kind = n.kind ∧
      s.children.map (root.addresses[·]?) = (List.range n.children.length).map (fun i => some (p ++ [i])) ∧
      t.Tiles (k + 1) s.children s.stop ∧ ∀ j, (k ≤ j ∧ j < s.stop) ↔ ∃ q, root.addresses[j]? = some (p ++ q)) ∧
    t.hierarchy? = some root ∧
    ∀ (k : Nat) p, root.addresses[k]? = some p → ∀ (m : Memory) e,
      (∀ (n : Nat) q, root.addresses[n]? = some (p ++ q) → (t.resetState k e m).get? n e = none) ∧
      (∀ (n : Nat) e', ¬((∃ q, root.addresses[n]? = some (p ++ q)) ∧ e' = e) →
        (t.resetState k e m).get? n e' = m.get? n e') ∧
      (t.resetState k e m).completed = m.completed ∧ (t.resetState k e m).filtered = m.filtered := by
  intro t
  have hflatten : (root.flatten #[]).2 = t.slots := by
    rw [flatten_eq root (by simpa using small)]
    simp [t, ofNode, NodeId.root]
  refine ⟨⟨hflatten, size_ofNode name root⟩, ⟨mem_addresses root, pairwise_addresses root, ?_⟩, fun k p hk => ?_,
    hierarchy?_ofNode, fun k p hk m e => ?_⟩
  · rw [length_addresses, size_ofNode]
  · obtain ⟨n, hn, hholds, -⟩ := exists_holds_at hk name
    exact ⟨n, n.slot k, hn, hholds.slot, rfl, rfl, rfl, addresses_children hk hn, hholds.tiles,
      fun j => mem_range_iff hk hn⟩
  · obtain ⟨n, hn, hholds, -⟩ := exists_holds_at hk name
    have hin {j : Nat} : j ∈ t.subtree k ↔ ∃ q, root.addresses[j]? = some (p ++ q) :=
      hholds.mem_subtree.trans (mem_range_iff hk hn)
    refine ⟨fun j q hj => ?_, fun j e' hj => ?_, completed_resetState, filtered_resetState⟩
    · rw [get?_resetState, if_pos ⟨hin.mpr ⟨q, hj⟩, rfl⟩]
    · rw [get?_resetState, if_neg fun h => hj ⟨hin.mp h.1, h.2⟩]

/-- A sequence of a decorated leaf and another leaf. -/
theorem arena_layout_nested :
    let inner : TreeNode Unit := { TreeNode.ofKind .invert with children := [.idle 0] }
    let root : TreeNode Unit := { TreeNode.ofKind .sequence with children := [inner, .idle 5] }
    let t := ofNode "" root
    root.count < UInt32.size ∧ root.addresses = [[], [0], [0, 0], [1]] ∧ (root.flatten #[]).2 = t.slots ∧
      t.hierarchy? = some root ∧ ∀ (m : Memory) e,
        (t.resetState 1 e m).get? 2 e = none ∧ (t.resetState 1 e m).get? 3 e = m.get? 3 e := by
  intro inner root t
  have small : root.count < UInt32.size := by decide
  have haddresses : root.addresses = [[], [0], [0, 0], [1]] := rfl
  obtain ⟨⟨flattened, -⟩, -, -, hierarchy, forgotten⟩ := arena_layout "" small
  refine ⟨small, haddresses, flattened, hierarchy, fun m e => ?_⟩
  obtain ⟨gone, kept, -, -⟩ := forgotten 1 [0] rfl m e
  refine ⟨gone 2 [0] rfl, kept 3 e ?_⟩
  rintro ⟨⟨q, hq⟩, -⟩
  cases hq

end BehaviorTree

end Behavior
