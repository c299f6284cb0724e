import Behavior.Proofs.Tree.Layout
/-!
# What a snapshot shows

The snapshot of a tree follows the ids of children, while a search in it goes down through what it holds. Both visit the
nodes in pre-order, so the node with the id `k` is number `k` of the snapshot. Main statement:
`BehaviorTree.snapshot_shows`.
-/

namespace Behavior

variable {χ : Type}

namespace NodeSnapshot

/-! ## Searching in pre-order -/

mutual

/-- A node and everything below it, parents before children. -/
def preorder : NodeSnapshot → List NodeSnapshot
  | ⟨id, name, condition, status, children⟩ => ⟨id, name, condition, status, children⟩ :: preorderAll children

def preorderAll : List NodeSnapshot → List NodeSnapshot
  | [] => []
  | n :: ns => n.preorder ++ preorderAll ns

end

theorem preorder_eq (n : NodeSnapshot) : n.preorder = n :: preorderAll n.children := by
  cases n; rfl

mutual

theorem length_preorder : (n : NodeSnapshot) → n.preorder.length = n.count
  | ⟨_, _, _, _, children⟩ => by
      rw [preorder, List.length_cons, length_preorderAll children, count, Nat.add_comm]

theorem length_preorderAll : (ns : List NodeSnapshot) → (preorderAll ns).length = countAll ns
  | [] => rfl
  | n :: ns => by
      rw [preorderAll, List.length_append, length_preorder n, length_preorderAll ns, countAll]

end

variable {test : NodeSnapshot → Bool}

mutual

/-- The search comes to the nodes in pre-order. -/
theorem find?_eq : (n : NodeSnapshot) → n.find? test = n.preorder.find? test
  | ⟨id, name, condition, status, children⟩ => by
      rw [find?, preorder, List.find?_cons, findAll?_eq children]
      cases test ⟨id, name, condition, status, children⟩ <;> rfl

theorem findAll?_eq : (ns : List NodeSnapshot) → findAll? test ns = (preorderAll ns).find? test
  | [] => rfl
  | n :: ns => by
      rw [findAll?, preorderAll, List.find?_append, find?_eq n, findAll?_eq ns]

end

end NodeSnapshot

namespace BehaviorTree

open TreeNode

variable {t : BehaviorTree χ} {m : Memory} {e : EntityId} {id : Nat} {s : Slot χ}

/-! ## Nodes in the snapshot of a tree -/

/-- The snapshot of a node. No path below it is longer than the tree. -/
def snapshotOf (t : BehaviorTree χ) (m : Memory) (e : EntityId) (id : NodeId) : NodeSnapshot :=
  t.snapshotTo m e t.size id

/-- Any two bounds that the ids below a node do not exceed give the same snapshot. -/
theorem Nested.snapshotTo_congr (nested : t.Nested) {d d' : Nat} (h : t.size - id ≤ d) (h' : t.size - id ≤ d') :
    t.snapshotTo m e d id = t.snapshotTo m e d' id := by
  induction d generalizing d' id with
  | zero =>
      have hnone : t.slot? id = none := Array.getElem?_eq_none (by simp only [size] at h; omega)
      cases d' <;> simp [snapshotTo, hnone]
  | succ d ih =>
      cases hs : t.slot? id with
      | none => cases d' <;> simp [snapshotTo, hs]
      | some s =>
          have hlt := lt_size hs
          cases d' with
          | zero => omega
          | succ d' =>
              have hchildren : s.children.map (t.snapshotTo m e d) = s.children.map (t.snapshotTo m e d') := by
                refine List.map_congr_left fun c hc => ?_
                obtain ⟨s', hs'⟩ := nested.exists_slot hs hc
                have := (nested.below hs hc (nested.mem_self hs')).1
                exact ih (by omega) (by omega)
              simp only [snapshotTo, hs, hchildren]

theorem Nested.snapshotOf_eq (nested : t.Nested) (h : t.slot? id = some s) :
    t.snapshotOf m e id =
      { id := UInt32.ofNat id, name := s.label.text, condition := s.condition.text, status := m.status id e
        children := s.children.map (t.snapshotOf m e) } := by
  have hlt := lt_size h
  obtain ⟨d, hd⟩ : ∃ d, t.size = d + 1 := ⟨t.size - 1, by omega⟩
  have hchildren : s.children.map (t.snapshotTo m e d) = s.children.map (t.snapshotOf m e) := by
    refine List.map_congr_left fun c hc => ?_
    obtain ⟨s', hs'⟩ := nested.exists_slot h hc
    have := (nested.below h hc (nested.mem_self hs')).1
    exact nested.snapshotTo_congr (by omega) (Nat.sub_le _ _)
  rw [snapshotOf, hd, snapshotTo]
  simp only [h, hchildren]

mutual

/-- In pre-order a snapshot holds the snapshots of the ids of a subtree, ascending. -/
theorem Holds.preorder_snapshotOf (nested : t.Nested) : (n : TreeNode χ) → {id : Nat} → t.Holds id n →
    (t.snapshotOf m e id).preorder = (List.range' id n.count).map (t.snapshotOf m e)
  | ⟨label, condition, kind, children⟩, id, h => by
      have hself := nested.snapshotOf_eq (m := m) (e := e) h.slot
      have hbelow := HoldsAll.preorder_snapshotOf nested children h.children
      rw [NodeSnapshot.preorder_eq, count_eq, Nat.add_comm, List.range'_succ, List.map_cons, ← hbelow]
      exact congrArg _ (congrArg NodeSnapshot.preorderAll (congrArg NodeSnapshot.children hself))

theorem HoldsAll.preorder_snapshotOf (nested : t.Nested) : (ns : List (TreeNode χ)) → {id : Nat} → t.HoldsAll id ns →
    NodeSnapshot.preorderAll ((siblingIds id ns).map (t.snapshotOf m e)) =
      (List.range' id (countAll ns)).map (t.snapshotOf m e)
  | [], _, _ => rfl
  | n :: ns, id, h => by
      rw [siblingIds, List.map_cons, NodeSnapshot.preorderAll, Holds.preorder_snapshotOf nested n h.head,
        HoldsAll.preorder_snapshotOf nested ns h.tail, countAll, ← List.range'_append_1, List.map_append]

end

/-- What a snapshot `n` shows of the node `k`: what the tree has about it and what is remembered, and the nodes below it
as `shown`, the snapshot of the whole tree, has them. -/
structure Shows (t : BehaviorTree χ) (m : Memory) (e : EntityId) (shown : NodeSnapshot) (k : NodeId) (n : NodeSnapshot) :
    Prop where
  id : n.id = UInt32.ofNat k
  name : t.labelText? k = some n.name
  condition : t.conditionText? k = some n.condition
  status : n.status = m.status k e
  children : n.children.map some = (t.children k).map (shown.preorder[·]?)

section Root

variable {name : String} {root : TreeNode χ}

theorem preorder_snapshot : ((ofNode name root).snapshot m e).preorder =
    (List.range (ofNode name root).size).map ((ofNode name root).snapshotOf m e) := by
  rw [size_ofNode, List.range_eq_range']
  exact (holds_ofNode name root).preorder_snapshotOf (nested_ofNode name root) root

theorem getElem?_preorder_snapshot {k : Nat} (h : k < (ofNode name root).size) :
    ((ofNode name root).snapshot m e).preorder[k]? = some ((ofNode name root).snapshotOf m e k) := by
  rw [preorder_snapshot, List.getElem?_map, List.getElem?_range h, Option.map_some]

theorem shows_snapshotOf {k : Nat} (h : k < (ofNode name root).size) :
    (ofNode name root).Shows m e ((ofNode name root).snapshot m e) k ((ofNode name root).snapshotOf m e k) := by
  have nested := nested_ofNode name root
  obtain ⟨s, hs⟩ : ∃ s, (ofNode name root).slot? k = some s := ⟨_, Array.getElem?_eq_getElem h⟩
  have hchildren : s.children.map (fun c => some ((ofNode name root).snapshotOf m e c)) =
      s.children.map (((ofNode name root).snapshot m e).preorder[·]?) := by
    refine List.map_congr_left fun c hc => ?_
    obtain ⟨s', hs'⟩ := nested.exists_slot hs hc
    exact (getElem?_preorder_snapshot (lt_size hs')).symm
  rw [nested.snapshotOf_eq hs]
  exact
    { id := rfl
      name := by rw [labelText?, hs]; rfl
      condition := by rw [conditionText?, hs]; rfl
      status := rfl
      children := by simpa [BehaviorTree.children, hs, Function.comp_def] using hchildren }

/-- A number up to a word that becomes the word is the word's own number. -/
theorem eq_toNat_of_ofNat_eq {id : UInt32} {k : Nat} (hle : k ≤ id.toNat) (h : UInt32.ofNat k = id) : k = id.toNat := by
  rw [← h, UInt32.toNat_ofNat_of_lt' (Nat.lt_of_le_of_lt hle id.toNat_lt)]

/-- The search for an id ends at the node that has it: those before it have smaller ids. -/
theorem findId?_snapshot (id : UInt32) :
    ((ofNode name root).snapshot m e).findId? id = ((ofNode name root).snapshot m e).preorder[id.toNat]? := by
  have hid {k : Nat} (hk : k < (ofNode name root).size) :
      ((ofNode name root).snapshotOf m e k).id = UInt32.ofNat k := (shows_snapshotOf hk).id
  rw [NodeSnapshot.findId?, NodeSnapshot.find?_eq, preorder_snapshot, List.find?_map, List.getElem?_map]
  by_cases h : id.toNat < (ofNode name root).size
  · rw [List.getElem?_range h, List.find?_range_eq_some.mpr]
    refine ⟨by simp [hid h], List.mem_range.mpr h, fun k hk => ?_⟩
    have hne : UInt32.ofNat k ≠ id := fun heq => Nat.ne_of_lt hk (eq_toNat_of_ofNat_eq (Nat.le_of_lt hk) heq)
    simp [hid (Nat.lt_trans hk h), hne]
  · rw [List.getElem?_eq_none (by rw [List.length_range]; omega), List.find?_eq_none.mpr]
    intro k hk heq
    have hk := List.mem_range.mp hk
    rw [Function.comp_apply, hid hk, beq_iff_eq] at heq
    have := eq_toNat_of_ofNat_eq (by omega) heq
    omega

theorem labelText?_eq_some_iff {k : Nat} {s : String} : (ofNode name root).labelText? k = some s ↔
    k < (ofNode name root).size ∧ ((ofNode name root).snapshotOf m e k).name = s := by
  constructor
  · intro h
    obtain ⟨slot, hslot, -⟩ := Option.map_eq_some_iff.mp h
    have hlt := lt_size hslot
    exact ⟨hlt, Option.some.inj ((shows_snapshotOf hlt).name.symm.trans h)⟩
  · rintro ⟨hlt, rfl⟩
    exact (shows_snapshotOf hlt).name

/-- The search for a name ends at the node of least id that has it. -/
theorem findName?_snapshot_eq_some_iff {s : String} {n : NodeSnapshot} :
    ((ofNode name root).snapshot m e).findName? s = some n ↔
      ∃ k, ((ofNode name root).snapshot m e).preorder[k]? = some n ∧ (ofNode name root).labelText? k = some s ∧
        ∀ j < k, (ofNode name root).labelText? j ≠ some s := by
  rw [NodeSnapshot.findName?, NodeSnapshot.find?_eq, preorder_snapshot, List.find?_map, Option.map_eq_some_iff]
  refine exists_congr fun k => ?_
  simp only [List.find?_range_eq_some, labelText?_eq_some_iff (m := m) (e := e), List.getElem?_map, List.mem_range,
    Function.comp_apply, beq_iff_eq, Bool.not_eq_true', beq_eq_false_iff_ne, ne_eq]
  constructor
  · rintro ⟨⟨hk, hlt, hbefore⟩, rfl⟩
    exact ⟨by rw [List.getElem?_range hlt, Option.map_some], ⟨hlt, hk⟩, fun j hj h => hbefore j hj h.2⟩
  · rintro ⟨hn, ⟨hlt, hk⟩, hbefore⟩
    rw [List.getElem?_range hlt, Option.map_some, Option.some.injEq] at hn
    exact ⟨⟨hk, hlt, fun j hj h => hbefore j hj ⟨Nat.lt_trans hj hlt, h⟩⟩, hn⟩

/-- A snapshot has every node of the tree once: number `k` in pre-order shows the node with the id `k`, a word, which is
`k` itself as far as words go. The search for an id ends at that node, and the one for a name at the node of least id
that has it. -/
theorem snapshot_shows (name : String) (root : TreeNode χ) (m : Memory) (e : EntityId) :
    let t := ofNode name root
    let shown := t.snapshot m e
    (shown.count = t.size ∧ shown.preorder.length = t.size ∧
      (t.size ≤ UInt32.size → shown.preorder.map (·.id.toNat) = List.range t.size)) ∧
    (∀ k < t.size, ∃ n, shown.preorder[k]? = some n ∧ t.Shows m e shown k n) ∧
    (∀ id : UInt32, shown.findId? id = shown.preorder[id.toNat]? ∧ (t.size ≤ id.toNat → shown.findId? id = none)) ∧
    ∀ s, (∀ n, shown.findName? s = some n ↔
        ∃ k, shown.preorder[k]? = some n ∧ t.labelText? k = some s ∧ ∀ j < k, t.labelText? j ≠ some s) ∧
      ((∀ k, t.labelText? k ≠ some s) → shown.findName? s = none) := by
  intro t shown
  have hlength : shown.preorder.length = t.size := by rw [preorder_snapshot, List.length_map, List.length_range]
  refine ⟨⟨?_, hlength, fun hle => ?_⟩, fun k hk => ?_, fun id => ⟨findId?_snapshot id, fun hge => ?_⟩,
    fun s => ⟨fun n => findName?_snapshot_eq_some_iff, fun hs => ?_⟩⟩
  · rw [← NodeSnapshot.length_preorder, hlength]
  · rw [preorder_snapshot, List.map_map]
    refine (List.map_congr_left fun k hk => ?_).trans (List.map_id _)
    have hk := List.mem_range.mp hk
    rw [Function.comp_apply, (shows_snapshotOf hk).id]
    exact UInt32.toNat_ofNat_of_lt' (Nat.lt_of_lt_of_le hk hle)
  · exact ⟨_, getElem?_preorder_snapshot hk, shows_snapshotOf hk⟩
  · rw [findId?_snapshot, List.getElem?_eq_none (by rwa [hlength])]
  · rw [Option.eq_none_iff_forall_ne_some]
    intro n hn
    obtain ⟨k, -, hk, -⟩ := findName?_snapshot_eq_some_iff.mp hn
    exact hs k hk

end Root

end BehaviorTree

end Behavior
