import Behavior.Proofs.Tree.Forgetting
/-!
# Addresses

The address of a node in a hierarchy tells which child to go down to at each step from the root. In ascending order the
addresses are those of the nodes in pre-order (`TreeNode.pairwise_addresses`), and a laid out tree has each node at the
index of its address. Main statement: `BehaviorTree.arena_layout`.
-/

namespace Behavior

variable {χ : Type}

namespace TreeNode

mutual

/-- The addresses of a node and its descendants, parents before children. -/
def addresses : TreeNode χ → List (List Nat)
  | ⟨_, _, _, children⟩ => [] :: addressesAll 0 children

/-- The addresses of siblings and their descendants, seen from the parent; the first is its child number `i`. -/
def addressesAll (i : Nat) : List (TreeNode χ) → List (List Nat)
  | [] => []
  | n :: ns => n.addresses.map (i :: ·) ++ addressesAll (i + 1) ns

end

/-- The node at an address. -/
def descendant? : TreeNode χ → List Nat → Option (TreeNode χ)
  | n, [] => some n
  | n, i :: p => n.children[i]?.bind (·.descendant? p)

variable {n m : TreeNode χ} {ns : List (TreeNode χ)} {i j k : Nat} {p q : List Nat}

theorem addresses_eq (n : TreeNode χ) : n.addresses = [] :: addressesAll 0 n.children := by
  cases n; rfl

theorem descendant?_append : n.descendant? (p ++ q) = (n.descendant? p).bind (·.descendant? q) := by
  induction p generalizing n with
  | nil => rfl
  | cons i p ih =>
      simp only [List.cons_append, descendant?, ih, Option.bind_assoc]

mutual

theorem length_addresses : (n : TreeNode χ) → n.addresses.length = n.count
  | ⟨_, _, _, children⟩ => by
      rw [addresses, List.length_cons, length_addressesAll 0 children, count, Nat.add_comm]

theorem length_addressesAll (i : Nat) : (ns : List (TreeNode χ)) → (addressesAll i ns).length = countAll ns
  | [] => rfl
  | n :: ns => by
      rw [addressesAll, List.length_append, List.length_map, length_addresses n, length_addressesAll (i + 1) ns, countAll]

end

mutual

theorem mem_addresses : (n : TreeNode χ) → ∀ p, p ∈ n.addresses ↔ (n.descendant? p).isSome
  | ⟨_, _, _, children⟩, [] => by simp [addresses, descendant?]
  | ⟨_, _, _, children⟩, i :: p => by
      have h := mem_addressesAll children 0 i p
      simpa [addresses, descendant?] using h

theorem mem_addressesAll : (ns : List (TreeNode χ)) → ∀ i j p,
    j :: p ∈ addressesAll i ns ↔ i ≤ j ∧ (ns[j - i]?.bind (·.descendant? p)).isSome
  | [], i, j, p => by simp [addressesAll]
  | n :: ns, i, j, p => by
      have hn := mem_addresses n p
      have hns := mem_addressesAll ns (i + 1) j p
      rw [addressesAll, List.mem_append, hns]
      rcases Nat.lt_trichotomy i j with hlt | rfl | hlt
      · obtain ⟨d, rfl⟩ : ∃ d, j = i + 1 + d := ⟨j - (i + 1), by omega⟩
        have hsub : i + 1 + d - i = d + 1 := by omega
        simp [hsub, Nat.ne_of_lt hlt, Nat.le_of_lt hlt]
      · simp [hn, show ¬ i + 1 ≤ i by omega]
      · have hle : ¬ i ≤ j := Nat.not_le_of_lt hlt
        simp [hle, Nat.ne_of_gt hlt, show ¬ i + 1 ≤ j by omega]

end

theorem nil_not_mem_addressesAll : [] ∉ addressesAll i ns := by
  induction ns generalizing i with
  | nil => simp [addressesAll]
  | cons n ns ih => simp [addressesAll, ih]

mutual

/-- In pre-order the addresses ascend. -/
theorem pairwise_addresses : (n : TreeNode χ) → n.addresses.Pairwise (· < ·)
  | ⟨_, _, _, children⟩ => by
      rw [addresses]
      refine .cons (fun p hp => ?_) (pairwise_addressesAll 0 children)
      cases p with
      | nil => exact absurd hp nil_not_mem_addressesAll
      | cons i p => exact List.nil_lt_cons i p

theorem pairwise_addressesAll (i : Nat) : (ns : List (TreeNode χ)) → (addressesAll i ns).Pairwise (· < ·)
  | [] => .nil
  | n :: ns => by
      rw [addressesAll, List.pairwise_append]
      refine ⟨List.pairwise_map.mpr ((pairwise_addresses n).imp fun h => List.cons_lt_cons_iff.mpr (.inr ⟨rfl, h⟩)),
        pairwise_addressesAll (i + 1) ns, fun p hp q hq => ?_⟩
      obtain ⟨p, -, rfl⟩ := List.mem_map.mp hp
      cases q with
      | nil => exact absurd hq nil_not_mem_addressesAll
      | cons j q =>
          have hle := ((mem_addressesAll ns (i + 1) j q).mp hq).1
          exact List.cons_lt_cons_iff.mpr (.inl hle)

end

theorem nodup_addresses : n.addresses.Nodup := by
  refine List.Pairwise.imp (fun h => ?_) (pairwise_addresses n)
  rintro rfl
  exact List.lt_irrefl _ h

/-- An address has one index only. -/
theorem index_unique (hj : n.addresses[j]? = some p) (hk : n.addresses[k]? = some p) : j = k :=
  (List.getElem?_inj (List.getElem?_eq_some_iff.mp hj).1 nodup_addresses).mp (hj.trans hk.symm)

end TreeNode

namespace BehaviorTree

open TreeNode

variable {t : BehaviorTree χ} {id c : Nat} {n m : TreeNode χ} {ns : List (TreeNode χ)} {i j k : Nat} {p q : List Nat}

/-! ## Where the nodes stand -/

/-- A sibling stands past those before it, and its addresses are listed past theirs. -/
theorem HoldsAll.exists_segment (h : t.HoldsAll id ns) (hi : ns[i]? = some n) :
    ∃ before after, addressesAll j ns = before ++ n.addresses.map ((j + i) :: ·) ++ after ∧
      t.Holds (id + before.length) n ∧ (siblingIds id ns)[i]? = some (id + before.length) := by
  induction ns generalizing id i j with
  | nil => cases hi
  | cons n' ns ih =>
      cases i with
      | zero =>
          obtain rfl : n' = n := Option.some.inj hi
          exact ⟨[], addressesAll (j + 1) ns, rfl, h.head, rfl⟩
      | succ i =>
          obtain ⟨before, after, hlist, hholds, hid⟩ := @ih (id + n'.count) i (j + 1) h.tail hi
          have hlength : (n'.addresses.map (j :: ·) ++ before).length = n'.count + before.length := by
            rw [List.length_append, List.length_map, length_addresses]
          refine ⟨n'.addresses.map (j :: ·) ++ before, after, ?_, ?_, ?_⟩
          · rw [addressesAll, hlist, Nat.add_right_comm, Nat.add_assoc j]
            simp only [List.append_assoc]
          · rwa [hlength, ← Nat.add_assoc]
          · rwa [hlength, ← Nat.add_assoc]

/-- What is at an address stands at the index of the address, and the addresses below it are listed there. -/
theorem Holds.exists_segment (h : t.Holds id n) (hp : n.descendant? p = some m) :
    ∃ before after, n.addresses = before ++ m.addresses.map (p ++ ·) ++ after ∧ t.Holds (id + before.length) m := by
  induction p generalizing n id with
  | nil =>
      obtain rfl : n = m := Option.some.inj hp
      exact ⟨[], [], by simp, h⟩
  | cons i p ih =>
      rw [descendant?, Option.bind_eq_some_iff] at hp
      obtain ⟨c, hc, hm⟩ := hp
      obtain ⟨before, after, hlist, hholds, -⟩ := @HoldsAll.exists_segment _ t (id + 1) c n.children i 0 h.children hc
      obtain ⟨before', after', hlist', hholds'⟩ := ih hholds hm
      refine ⟨[] :: before ++ before'.map (i :: ·), after'.map (i :: ·) ++ after, ?_, ?_⟩
      · rw [addresses_eq, hlist, hlist', Nat.zero_add]
        simp [List.map_map, Function.comp_def]
      · have hlength : id + ([] :: before ++ before'.map (i :: ·)).length = id + 1 + before.length + before'.length := by
          simp only [List.length_append, List.length_cons, List.length_map]
          omega
        rwa [hlength]

theorem Holds.exists_at (h : t.Holds id n) (hk : n.addresses[k]? = some p) :
    ∃ m, n.descendant? p = some m ∧ t.Holds (id + k) m ∧
      ∀ {i q}, m.addresses[i]? = some q → n.addresses[k + i]? = some (p ++ q) := by
  obtain ⟨m, hm⟩ := Option.isSome_iff_exists.mp ((mem_addresses n p).mp (List.mem_of_getElem? hk))
  obtain ⟨before, after, hlist, hholds⟩ := h.exists_segment hm
  have hbelow {i : Nat} {q : List Nat} (hi : m.addresses[i]? = some q) :
      n.addresses[before.length + i]? = some (p ++ q) := by
    have hlt : i < (m.addresses.map (p ++ ·)).length := by
      rw [List.length_map]
      exact (List.getElem?_eq_some_iff.mp hi).1
    rw [hlist, List.append_assoc, List.getElem?_append_right (Nat.le_add_right _ _), Nat.add_sub_cancel_left,
      List.getElem?_append_left hlt, List.getElem?_map, hi, Option.map_some]
  obtain rfl : before.length = k := by
    refine index_unique ?_ hk
    have hroot : m.addresses[0]? = some [] := by rw [addresses_eq]; rfl
    simpa using hbelow hroot
  exact ⟨m, hm, hholds, hbelow⟩

section Root

variable {root : TreeNode χ} (hk : root.addresses[k]? = some p)

include hk

/-- A tree has what is at an address at the index of the address. -/
theorem exists_holds_at (name : String) : ∃ m, root.descendant? p = some m ∧ (ofNode name root).Holds k m ∧
    ∀ {i q}, m.addresses[i]? = some q → root.addresses[k + i]? = some (p ++ q) := by
  obtain ⟨m, hm, hholds, hbelow⟩ := (holds_ofNode name root).exists_at hk
  rw [NodeId.root, Nat.zero_add] at hholds
  exact ⟨m, hm, hholds, hbelow⟩

/-- The ids of a node and its descendants are the indexes of the addresses that begin with the node's. -/
theorem mem_range_iff (hm : root.descendant? p = some m) :
    (k ≤ j ∧ j < k + m.count) ↔ ∃ q, root.addresses[j]? = some (p ++ q) := by
  obtain ⟨m', hm', -, hbelow⟩ := exists_holds_at hk ""
  obtain rfl : m' = m := Option.some.inj (hm'.symm.trans hm)
  constructor
  · rintro ⟨hle, hlt⟩
    have hlt : j - k < m'.addresses.length := by
      rw [length_addresses]
      omega
    have hj := hbelow (List.getElem?_eq_getElem hlt)
    rw [Nat.add_sub_cancel' hle] at hj
    exact ⟨_, hj⟩
  · rintro ⟨q, hj⟩
    have hq : (m'.descendant? q).isSome := by
      have hpq := (mem_addresses root (p ++ q)).mp (List.mem_of_getElem? hj)
      rwa [descendant?_append, hm, Option.bind_some] at hpq
    obtain ⟨i, hi⟩ := List.mem_iff_getElem?.mp ((mem_addresses m' q).mpr hq)
    have hlt := (List.getElem?_eq_some_iff.mp hi).1
    rw [length_addresses] at hlt
    have := index_unique hj (hbelow hi)
    omega

/-- The children of a node stand at the indexes of their addresses. -/
theorem addresses_children (hm : root.descendant? p = some m) :
    (siblingIds (k + 1) m.children).map (root.addresses[·]?) =
      (List.range m.children.length).map fun i => some (p ++ [i]) := by
  obtain ⟨m', hm', hholds, hbelow⟩ := exists_holds_at hk ""
  obtain rfl : m' = m := Option.some.inj (hm'.symm.trans hm)
  refine List.ext_getElem? fun i => ?_
  rw [List.getElem?_map, List.getElem?_map]
  cases hc : m'.children[i]? with
  | none =>
      have hle := List.getElem?_eq_none_iff.mp hc
      rw [List.getElem?_eq_none (by rwa [length_siblingIds]), List.getElem?_eq_none (by rwa [List.length_range])]
      rfl
  | some c =>
      have hlt := (List.getElem?_eq_some_iff.mp hc).1
      obtain ⟨before, after, hlist, -, hid⟩ := @HoldsAll.exists_segment _ _ (k + 1) c m'.children i 0 hholds.children hc
      have haddress : m'.addresses[1 + before.length]? = some [i] := by
        rw [addresses_eq, Nat.add_comm 1, List.getElem?_cons_succ, hlist, List.append_assoc,
          List.getElem?_append_right (Nat.le_refl _), Nat.sub_self, addresses_eq, Nat.zero_add]
        rfl
      rw [hid, List.getElem?_range hlt, Option.map_some, Option.map_some, Nat.add_assoc, hbelow haddress]

end Root

/-! ## Side by side -/

/-- These ids begin where the one before ends; the first is `first`, and the last ends at `stop`. -/
def Tiles (t : BehaviorTree χ) : (first : NodeId) → List NodeId → (stop : NodeId) → Prop
  | first, [], stop => first = stop
  | first, c :: cs, stop => c = first ∧ ∃ s, t.slot? c = some s ∧ Tiles t s.stop cs stop

theorem HoldsAll.tiles (h : t.HoldsAll id ns) : t.Tiles id (siblingIds id ns) (id + countAll ns) := by
  induction ns generalizing id with
  | nil => rfl
  | cons n ns ih =>
      refine ⟨rfl, _, h.head.slot, ?_⟩
      rw [countAll, ← Nat.add_assoc]
      exact ih h.tail

theorem Holds.tiles (h : t.Holds id n) : t.Tiles (id + 1) (n.slot id).children (n.slot id).stop := by
  have htiles := h.children.tiles
  rwa [Nat.add_assoc, ← count_eq] at htiles

/-! ## The hierarchy behind a tree -/

/-- The hierarchy that stands at an id, if it has no more than `depth` levels. -/
def hierarchyTo (t : BehaviorTree χ) : (depth : Nat) → NodeId → Option (TreeNode χ)
  | 0, _ => none
  | depth + 1, id => (t.slot? id).bind fun s => (s.children.mapM (hierarchyTo t depth)).map fun children =>
    { label := s.label, condition := s.condition, kind := s.kind, children }

/-- The hierarchy that a tree was laid out from. -/
def hierarchy? (t : BehaviorTree χ) : Option (TreeNode χ) := t.hierarchyTo t.size NodeId.root

mutual

theorem Holds.hierarchyTo_eq : (n : TreeNode χ) → {id depth : Nat} → t.Holds id n → n.count ≤ depth →
    t.hierarchyTo depth id = some n
  | ⟨label, condition, kind, children⟩, id, depth, h, hle => by
      rw [count_eq] at hle
      obtain ⟨depth, rfl⟩ : ∃ d, depth = d + 1 := ⟨depth - 1, by omega⟩
      have hchildren : (siblingIds (id + 1) children).mapM (t.hierarchyTo depth) = some children :=
        HoldsAll.hierarchyTo_eq children h.children (by simp only at hle; omega)
      rw [hierarchyTo, h.slot]
      simp only [Option.bind_some, TreeNode.slot, hchildren, Option.map_some]

theorem HoldsAll.hierarchyTo_eq : (ns : List (TreeNode χ)) → {id depth : Nat} → t.HoldsAll id ns →
    countAll ns ≤ depth → (siblingIds id ns).mapM (t.hierarchyTo depth) = some ns
  | [], _, _, _, _ => rfl
  | n :: ns, id, depth, h, hle => by
      rw [countAll] at hle
      have hn := Holds.hierarchyTo_eq n h.head (Nat.le_trans (Nat.le_add_right _ _) hle)
      have hns := HoldsAll.hierarchyTo_eq ns h.tail (Nat.le_trans (Nat.le_add_left _ _) hle)
      simp [siblingIds, List.mapM_cons, hn, hns]

end

theorem hierarchy?_ofNode {name : String} {root : TreeNode χ} : (ofNode name root).hierarchy? = some root :=
  (holds_ofNode name root).hierarchyTo_eq root (Nat.le_of_eq (size_ofNode name root).symm)

end BehaviorTree

end Behavior
