import Behavior.Tree.Arena
/-!
# The layout of a hierarchy

A laid out hierarchy has every node at its index in pre-order. Main statement: in a tree made from a
hierarchy the subtrees are nested as the nodes are (`BehaviorTree.nested_ofNode`), so that the range of
ids of a node is the node itself and, side by side, the ranges of its children.
-/

namespace Behavior

variable {χ : Type}

namespace TreeNode

/-- The slot of a node that stands at `id`. -/
def slot (id : NodeId) (n : TreeNode χ) : Slot χ where
  label := n.label
  condition := n.condition
  kind := n.kind
  children := siblingIds (id + 1) n.children
  stop := id + n.count

theorem count_eq (n : TreeNode χ) : n.count = 1 + countAll n.children := by
  cases n; rfl

theorem count_pos (n : TreeNode χ) : 0 < n.count := by
  rw [count_eq]; omega

theorem layout_eq (id : NodeId) (n : TreeNode χ) :
    n.layout id = n.slot id :: layoutAll (id + 1) n.children := by
  obtain ⟨label, condition, kind, children⟩ := n
  simp [layout, slot, count, Nat.add_assoc]

theorem preorder_eq (n : TreeNode χ) : n.preorder = n :: preorderAll n.children := by
  cases n; rfl

mutual

theorem length_layout (id : NodeId) : (n : TreeNode χ) → (n.layout id).length = n.count
  | ⟨_, _, _, children⟩ => by
      simp [layout, count, length_layoutAll (id + 1) children, Nat.add_comm]

theorem length_layoutAll (id : NodeId) : (ns : List (TreeNode χ)) →
    (layoutAll id ns).length = countAll ns
  | [] => rfl
  | n :: ns => by
      simp [layoutAll, countAll, length_layout id n, length_layoutAll (id + n.count) ns]

end

theorem length_siblingIds (id : NodeId) (ns : List (TreeNode χ)) :
    (siblingIds id ns).length = ns.length := by
  induction ns generalizing id with
  | nil => rfl
  | cons n ns ih => simp [siblingIds, ih]

end TreeNode

namespace BehaviorTree

open TreeNode

variable {t : BehaviorTree χ} {id c k : Nat}

/-! ## Slots that stand one after another -/

/-- The slots of the tree from an id on are these. -/
def Lays (t : BehaviorTree χ) (id : NodeId) (slots : List (Slot χ)) : Prop :=
  ∀ i s, slots[i]? = some s → t.slot? (id + i) = some s

theorem lays_cons {s : Slot χ} {slots} :
    t.Lays id (s :: slots) ↔ t.slot? id = some s ∧ t.Lays (id + 1) slots := by
  constructor
  · intro h
    refine ⟨h 0 s rfl, fun i s' hi => ?_⟩
    have := h (i + 1) s' (by simpa using hi)
    rwa [show id + 1 + i = id + (i + 1) by omega]
  · rintro ⟨h₀, h⟩ i s' hi
    cases i with
    | zero => simp only [List.getElem?_cons_zero, Option.some.injEq] at hi; subst hi; exact h₀
    | succ i =>
        have := h i s' (by simpa using hi)
        rwa [show id + 1 + i = id + (i + 1) by omega] at this

theorem Lays.append_left {xs ys : List (Slot χ)} (h : t.Lays id (xs ++ ys)) : t.Lays id xs := by
  intro i s hi
  have hlt : i < xs.length := (List.getElem?_eq_some_iff.mp hi).1
  exact h i s (by rwa [List.getElem?_append_left hlt])

theorem Lays.append_right {xs ys : List (Slot χ)} (h : t.Lays id (xs ++ ys)) :
    t.Lays (id + xs.length) ys := by
  intro i s hi
  have := h (xs.length + i) s (by rwa [List.getElem?_append_right (by omega), Nat.add_sub_cancel_left])
  rwa [Nat.add_assoc]

/-- A hierarchy stands in the tree with its root at `id`. -/
def Holds (t : BehaviorTree χ) (id : NodeId) (n : TreeNode χ) : Prop := t.Lays id (n.layout id)

def HoldsAll (t : BehaviorTree χ) (id : NodeId) (ns : List (TreeNode χ)) : Prop := t.Lays id (layoutAll id ns)

theorem Holds.slot {n : TreeNode χ} (h : t.Holds id n) : t.slot? id = some (n.slot id) := by
  rw [Holds, layout_eq, lays_cons] at h
  exact h.1

theorem Holds.children {n : TreeNode χ} (h : t.Holds id n) : t.HoldsAll (id + 1) n.children := by
  rw [Holds, layout_eq, lays_cons] at h
  exact h.2

theorem HoldsAll.head {n : TreeNode χ} {ns} (h : t.HoldsAll id (n :: ns)) : t.Holds id n :=
  Lays.append_left h

theorem HoldsAll.tail {n : TreeNode χ} {ns} (h : t.HoldsAll id (n :: ns)) : t.HoldsAll (id + n.count) ns := by
  have h : t.Lays (id + (n.layout id).length) (layoutAll (id + n.count) ns) := Lays.append_right h
  rwa [length_layout] at h

theorem Holds.mem_subtree {n : TreeNode χ} (h : t.Holds id n) :
    k ∈ t.subtree id ↔ id ≤ k ∧ k < id + n.count := by
  simp only [subtree, h.slot, TreeNode.slot, Nat.add_sub_cancel_left, List.mem_range'_1]

theorem Holds.subtree {n : TreeNode χ} (h : t.Holds id n) : t.subtree id = List.range' id n.count := by
  simp [BehaviorTree.subtree, h.slot, TreeNode.slot]

theorem holds_ofNode (name : String) (root : TreeNode χ) : (ofNode name root).Holds NodeId.root root := by
  intro i s hi
  simpa [ofNode, slot?, NodeId.root] using hi

theorem size_ofNode (name : String) (root : TreeNode χ) : (ofNode name root).size = root.count := by
  simp [ofNode, size, length_layout]

theorem lt_size {id : Nat} {s} (h : t.slot? id = some s) : id < t.size := (Array.getElem?_eq_some_iff.mp h).1

/-- The root of a hierarchy has every node below it. -/
theorem mem_subtree_root {name : String} {root : TreeNode χ} {id : Nat} {s}
    (h : (ofNode name root).slot? id = some s) : id ∈ (ofNode name root).subtree NodeId.root := by
  have hlt := lt_size h
  rw [size_ofNode] at hlt
  exact (holds_ofNode name root).mem_subtree.mpr ⟨Nat.zero_le id, by simpa [NodeId.root] using hlt⟩

/-! ## Siblings -/

/-- Each sibling stands at its id, inside the range that the siblings share. -/
theorem HoldsAll.mem {ns : List (TreeNode χ)} (h : t.HoldsAll id ns) (hc : c ∈ siblingIds id ns) :
    ∃ n ∈ ns, t.Holds c n ∧ id ≤ c ∧ c + n.count ≤ id + countAll ns := by
  induction ns generalizing id with
  | nil => cases hc
  | cons n ns ih =>
      rcases List.mem_cons.mp hc with rfl | hc
      · exact ⟨n, by simp, h.head, by omega, by simp only [countAll]; omega⟩
      · obtain ⟨m, hm, hh, hle, hlt⟩ := ih h.tail hc
        exact ⟨m, by simp [hm], hh, by omega, by simp only [countAll]; omega⟩

/-- The ids of siblings ascend. -/
theorem HoldsAll.pairwise {ns : List (TreeNode χ)} (h : t.HoldsAll id ns) :
    (siblingIds id ns).Pairwise (· < ·) := by
  induction ns generalizing id with
  | nil => exact .nil
  | cons n ns ih =>
      refine .cons (fun c hc => ?_) (ih h.tail)
      obtain ⟨_, _, _, hle, _⟩ := h.tail.mem hc
      exact Nat.lt_of_lt_of_le (Nat.lt_add_of_pos_right n.count_pos) hle

/-- No id lies in the ranges of two siblings. -/
theorem HoldsAll.apart {ns : List (TreeNode χ)} {c' : Nat} (h : t.HoldsAll id ns) (hc : c ∈ siblingIds id ns)
    (hc' : c' ∈ siblingIds id ns) (hk : k ∈ t.subtree c) (hk' : k ∈ t.subtree c') : c = c' := by
  induction ns generalizing id with
  | nil => cases hc
  | cons n ns ih =>
      -- a range of the tail begins past the range of the head
      have hpast : ∀ {c}, c ∈ siblingIds (id + n.count) ns → k ∈ t.subtree c → k ∉ t.subtree id := by
        intro c hc hk hk'
        obtain ⟨m, _, hm, hle, _⟩ := h.tail.mem hc
        have := hm.mem_subtree.mp hk
        have := h.head.mem_subtree.mp hk'
        omega
      rcases List.mem_cons.mp hc with rfl | hc <;> rcases List.mem_cons.mp hc' with rfl | hc'
      · rfl
      · exact absurd hk (hpast hc' hk')
      · exact absurd hk' (hpast hc hk)
      · exact ih h.tail hc hc'

/-- Every id in the range that siblings share lies in the range of one of them. -/
theorem HoldsAll.cover {ns : List (TreeNode χ)} (h : t.HoldsAll id ns) (hk : id ≤ k)
    (hk' : k < id + countAll ns) : ∃ c ∈ siblingIds id ns, k ∈ t.subtree c := by
  induction ns generalizing id with
  | nil => simp only [countAll] at hk'; omega
  | cons n ns ih =>
      by_cases hlt : k < id + n.count
      · exact ⟨id, by simp [siblingIds], h.head.mem_subtree.mpr ⟨hk, hlt⟩⟩
      · simp only [countAll] at hk'
        obtain ⟨c, hc, hkc⟩ := ih h.tail (by omega) (by omega)
        exact ⟨c, by simp [siblingIds, hc], hkc⟩

mutual

/-- Every id in the range of a hierarchy is the place of one of its nodes, which ends inside the range. -/
theorem Holds.node_at : (n : TreeNode χ) → {id : Nat} → t.Holds id n → id ≤ k → k < id + n.count →
    ∃ m ∈ n.preorder, t.Holds k m ∧ k + m.count ≤ id + n.count
  | ⟨label, condition, kind, children⟩, id, h, hk, hk' => by
      rw [preorder_eq]
      rw [count_eq] at hk' ⊢
      rcases Nat.eq_or_lt_of_le hk with rfl | hlt
      · exact ⟨_, by simp, h, Nat.le_of_eq (by rw [count_eq])⟩
      · obtain ⟨m, hm, hh, hend⟩ := HoldsAll.node_at children h.children hlt (by simp only at hk'; omega)
        exact ⟨m, by simp [hm], hh, by simp only; omega⟩

theorem HoldsAll.node_at : (ns : List (TreeNode χ)) → {id : Nat} → t.HoldsAll id ns → id ≤ k →
    k < id + countAll ns → ∃ m ∈ preorderAll ns, t.Holds k m ∧ k + m.count ≤ id + countAll ns
  | [], id, _, hk, hk' => by simp only [countAll] at hk'; omega
  | n :: ns, id, h, hk, hk' => by
      simp only [countAll] at hk' ⊢
      by_cases hlt : k < id + n.count
      · obtain ⟨m, hm, hh, hend⟩ := Holds.node_at n h.head hk hlt
        exact ⟨m, by simp [preorderAll, hm], hh, by omega⟩
      · obtain ⟨m, hm, hh, hend⟩ := HoldsAll.node_at ns h.tail (by omega) (by omega)
        exact ⟨m, by simp [preorderAll, hm], hh, by omega⟩

end

/-- Every slot of a tree made from a hierarchy is that of a node of the hierarchy. -/
theorem exists_holds_of_slot {name : String} {root : TreeNode χ} {s : Slot χ}
    (h : (ofNode name root).slot? id = some s) :
    ∃ n ∈ root.preorder, (ofNode name root).Holds id n ∧ s = n.slot id := by
  have hlt : id < (ofNode name root).size := (Array.getElem?_eq_some_iff.mp h).1
  rw [size_ofNode] at hlt
  obtain ⟨n, hn, hh, _⟩ := Holds.node_at root (holds_ofNode name root) (Nat.zero_le id)
    (by simpa [NodeId.root] using hlt)
  exact ⟨n, hn, hh, Option.some.inj (h.symm.trans hh.slot)⟩

/-! ## Nesting -/

/-- The ranges of a node's children lie side by side in the range of the node and fill it up. -/
structure Nested (t : BehaviorTree χ) : Prop where
  exists_slot {id c : Nat} {s} : t.slot? id = some s → c ∈ s.children → ∃ s', t.slot? c = some s'
  mem_self {id : Nat} {s} : t.slot? id = some s → id ∈ t.subtree id
  below {id c k : Nat} {s} : t.slot? id = some s → c ∈ s.children → k ∈ t.subtree c → id < k ∧ k ∈ t.subtree id
  apart {id c c' k : Nat} {s} : t.slot? id = some s → c ∈ s.children → c' ∈ s.children →
    k ∈ t.subtree c → k ∈ t.subtree c' → c = c'
  cover {id k : Nat} {s} : t.slot? id = some s → k ∈ t.subtree id → k = id ∨ ∃ c ∈ s.children, k ∈ t.subtree c
  nodup {id : Nat} {s} : t.slot? id = some s → s.children.Nodup
  trans {id n k : Nat} : n ∈ t.subtree id → k ∈ t.subtree n → k ∈ t.subtree id

theorem nested_ofNode (name : String) (root : TreeNode χ) : (ofNode name root).Nested where
  exists_slot h hc := by
    obtain ⟨n, _, hh, rfl⟩ := exists_holds_of_slot h
    obtain ⟨m, _, hm, _⟩ := hh.children.mem hc
    exact ⟨_, hm.slot⟩
  mem_self h := by
    obtain ⟨n, _, hh, rfl⟩ := exists_holds_of_slot h
    have := n.count_pos
    exact hh.mem_subtree.mpr ⟨by omega, by omega⟩
  below h hc hk := by
    obtain ⟨n, _, hh, rfl⟩ := exists_holds_of_slot h
    obtain ⟨m, _, hm, hle, hlt⟩ := hh.children.mem hc
    have hk := hm.mem_subtree.mp hk
    exact ⟨by omega, hh.mem_subtree.mpr ⟨by omega, by rw [count_eq]; omega⟩⟩
  apart h hc hc' hk hk' := by
    obtain ⟨n, _, hh, rfl⟩ := exists_holds_of_slot h
    exact hh.children.apart hc hc' hk hk'
  cover h hk := by
    obtain ⟨n, _, hh, rfl⟩ := exists_holds_of_slot h
    have hk := hh.mem_subtree.mp hk
    rw [count_eq] at hk
    rcases Nat.eq_or_lt_of_le hk.1 with rfl | hlt
    · exact .inl rfl
    · exact .inr (hh.children.cover hlt (by omega))
  nodup h := by
    obtain ⟨n, _, hh, rfl⟩ := exists_holds_of_slot h
    exact hh.children.pairwise.imp Nat.ne_of_lt
  trans {id n k} hn hk := by
    cases hs : (ofNode name root).slot? id with
    | none => simp [BehaviorTree.subtree, hs] at hn
    | some s =>
        obtain ⟨top, _, hh, rfl⟩ := exists_holds_of_slot hs
        have hn := hh.mem_subtree.mp hn
        obtain ⟨m, _, hm, hend⟩ := Holds.node_at top hh hn.1 hn.2
        have hk := hm.mem_subtree.mp hk
        exact hh.mem_subtree.mpr ⟨by omega, by omega⟩

theorem Nested.child_mem (nested : t.Nested) {id c n : Nat} {s} (hn : n ∈ t.subtree id) (hs : t.slot? n = some s)
    (hc : c ∈ s.children) : c ∈ t.subtree id := by
  obtain ⟨s', hs'⟩ := nested.exists_slot hs hc
  exact nested.trans hn (nested.below hs hc (nested.mem_self hs')).2

theorem Nested.self_mem_child (nested : t.Nested) {id c : Nat} {s} (hs : t.slot? id = some s)
    (hc : c ∈ s.children) : c ∈ t.subtree c := by
  obtain ⟨s', hs'⟩ := nested.exists_slot hs hc
  exact nested.mem_self hs'

theorem Nested.self_not_mem_child (nested : t.Nested) {id c : Nat} {s} (hs : t.slot? id = some s)
    (hc : c ∈ s.children) : id ∉ t.subtree c :=
  fun hin => Nat.lt_irrefl id (nested.below hs hc hin).1

theorem Nested.not_mem_children (nested : t.Nested) {id : Nat} {s} (hs : t.slot? id = some s) : id ∉ s.children :=
  fun hc => nested.self_not_mem_child hs hc (nested.self_mem_child hs hc)

end BehaviorTree

end Behavior
