import Behavior.Proofs.Search
import Behavior.Zone
/-!
# Ascending agents

Agents by ascending identity: placing those that are new among them, and visiting them.
-/

namespace Behavior

variable {χ : Type}

theorem Roster.contains_iff {r : Roster} {id : EntityId} (h : r.ids.Pairwise (· < ·)) :
    r.contains id = true ↔ id ∈ r.ids := by
  rw [contains, isFound_search (f := fun e => e) h]
  simp

/-- Lists that ascend strictly by identity are told by what is in them. -/
theorem eq_of_pairwise_lt {α : Type} {f : α → EntityId} {xs ys : List α} (hx : xs.Pairwise fun x y => f x < f y)
    (hy : ys.Pairwise fun x y => f x < f y) (h : ∀ x, x ∈ xs ↔ x ∈ ys) : xs = ys := by
  have nodup {zs : List α} (hz : zs.Pairwise fun x y => f x < f y) : zs.Nodup :=
    hz.imp fun hlt heq => EntityId.ne_of_lt hlt (congrArg f heq)
  exact ((List.perm_ext_iff_of_nodup (nodup hx) (nodup hy)).mpr h).eq_of_pairwise
    (fun _ _ _ _ hxy hyx => absurd hyx (EntityId.lt_asymm hxy)) hx hy

/-- Agents by strictly ascending identity. -/
def Ascending (agents : List (Agent χ)) : Prop := agents.Pairwise fun a b => a.entity < b.entity

namespace Ascending

variable {as bs : List (Agent χ)} {a b : Agent χ}

theorem nodup (h : Ascending as) : as.Nodup := h.imp fun hlt => fun heq => EntityId.ne_of_lt hlt (congrArg _ heq)

/-- Ascending agents are told by who is among them. -/
theorem eq_of_mem_iff (ha : Ascending as) (hb : Ascending bs) (h : ∀ a, a ∈ as ↔ a ∈ bs) : as = bs :=
  eq_of_pairwise_lt ha hb h

theorem entity_inj (h : Ascending as) (ha : a ∈ as) (hb : b ∈ as) (heq : a.entity = b.entity) : a = b := by
  obtain ⟨i, hi, rfl⟩ := List.getElem_of_mem ha
  obtain ⟨j, hj, rfl⟩ := List.getElem_of_mem hb
  have hlt := List.pairwise_iff_getElem.mp h
  rcases Nat.lt_trichotomy i j with hij | rfl | hij
  · exact absurd heq (EntityId.ne_of_lt (hlt i j hi hj hij))
  · rfl
  · exact absurd heq.symm (EntityId.ne_of_lt (hlt j i hj hi hij))

/-- What changes one of them changes the one with its identity. -/
theorem set_eq_map (h : Ascending as) {i : Nat} (hi : as[i]? = some a) (f : Agent χ → Agent χ) :
    as.set i (f a) = as.map fun b => if b.entity = a.entity then f b else b := by
  obtain ⟨hlt, rfl⟩ := List.getElem?_eq_some_iff.mp hi
  refine List.ext_getElem (by simp) fun j hj hj' => ?_
  rw [List.getElem_set, List.getElem_map]
  by_cases hij : i = j
  · subst hij
    rw [if_pos rfl, if_pos rfl]
  · rw [if_neg hij, if_neg fun heq => hij ?_]
    exact ((List.getElem_inj h.nodup).mp (h.entity_inj (List.getElem_mem _) (List.getElem_mem _) heq)).symm

theorem find?_eq (h : Ascending as) (ha : a ∈ as) : as.find? (·.entity == a.entity) = some a := by
  cases hf : as.find? (·.entity == a.entity) with
  | none => exact absurd (List.find?_eq_none.mp hf a ha) (by simp)
  | some b =>
      have heq : b.entity = a.entity := by simpa using List.find?_some hf
      rw [h.entity_inj (List.mem_of_find?_eq_some hf) ha heq]

theorem filter {p : Agent χ → Bool} (h : Ascending as) : Ascending (as.filter p) := List.Pairwise.filter p h

end Ascending

namespace Zone

variable {a b : Agent χ} {agents arrivals : List (Agent χ)}

theorem insertIdx_eq {α : Type} {x : α} {xs : List α} {i : Nat} (h : i ≤ xs.length) :
    xs.insertIdx i x = xs.take i ++ x :: xs.drop i := by
  induction xs generalizing i with
  | nil => simp only [List.length_nil, Nat.le_zero] at h; subst h; rfl
  | cons y ys ih =>
      cases i with
      | zero => rfl
      | succ i => simp [ih (Nat.le_of_succ_le_succ h)]

/-- An agent with a new identity is placed among the others. -/
theorem place_spec (h : Ascending agents) (hnew : ∀ b ∈ agents, b.entity ≠ a.entity) :
    Ascending (place a agents) ∧ ∀ b, b ∈ place a agents ↔ b = a ∨ b ∈ agents := by
  rcases search_id h with ⟨i, b, hs, hb, heq⟩ | ⟨i, hs, hi, hbelow, habove⟩
  · exact absurd heq (hnew b (List.mem_of_getElem? hb))
  have hplace : place a agents = agents.take i ++ a :: agents.drop i := by
    rw [place, hs]
    exact insertIdx_eq hi
  have hsplit := List.take_append_drop i agents
  rw [hplace]
  refine ⟨?_, fun b => ?_⟩
  · rw [← hsplit, Ascending, List.pairwise_append] at h
    refine List.pairwise_append.mpr ⟨h.1, .cons habove h.2.1, fun x hx y hy => ?_⟩
    rcases List.mem_cons.mp hy with rfl | hy
    · exact hbelow x hx
    · exact h.2.2 x hx y hy
  · conv => rhs; rw [← hsplit]
    simp only [List.mem_append, List.mem_cons]
    exact or_left_comm

/-- Arrivals with new identities are welcomed and placed one after the other. -/
theorem foldl_place_spec (config : ZoneConfig) (h : Ascending agents) (nodup : arrivals.Pairwise fun a b => a.entity ≠ b.entity)
    (hnew : ∀ a ∈ arrivals, ∀ b ∈ agents, b.entity ≠ a.entity) :
    Ascending (arrivals.foldl (fun as a => place (welcome config a) as) agents) ∧
      ∀ b, b ∈ arrivals.foldl (fun as a => place (welcome config a) as) agents ↔
        b ∈ agents ∨ ∃ a ∈ arrivals, welcome config a = b := by
  induction arrivals generalizing agents with
  | nil => exact ⟨h, fun b => by simp⟩
  | cons a as ih =>
      obtain ⟨hne, nodup⟩ := List.pairwise_cons.mp nodup
      obtain ⟨hplaced, hmem⟩ := place_spec (a := welcome config a) h (hnew a (by simp))
      obtain ⟨hascending, hall⟩ := ih hplaced nodup fun a' ha' b hb => by
        rcases (hmem b).mp hb with rfl | hb
        · exact hne a' ha'
        · exact hnew a' (by simp [ha']) b hb
      refine ⟨hascending, fun b => ?_⟩
      rw [List.foldl_cons, hall, hmem]
      simp only [List.mem_cons, exists_eq_or_imp, or_assoc]
      rw [or_left_comm, eq_comm]

/-! ## Queued changes -/

variable {p : Pending χ} {id e : EntityId}

theorem isArriving_iff : p.isArriving id = true ↔ ∃ a ∈ p.arrivals, a.entity = id := by
  simp [Pending.isArriving]

theorem isDeparting_iff : p.isDeparting id = true ↔ id ∈ p.departures := by
  simp [Pending.isDeparting]

theorem mem_withdraw (h : p.arrivals.Pairwise fun a b => a.entity ≠ b.entity) :
    a ∈ (p.withdraw id).arrivals ↔ a ∈ p.arrivals ∧ a.entity ≠ id := by
  obtain ⟨arrivals, _⟩ := p
  simp only [Pending.withdraw] at h ⊢
  induction arrivals with
  | nil => simp
  | cons b bs ih =>
      obtain ⟨hb, hbs⟩ := List.pairwise_cons.mp h
      by_cases hid : b.entity = id
      · rw [List.eraseP_cons_of_pos (by simpa using hid), List.mem_cons]
        constructor
        · exact fun ha => ⟨.inr ha, fun heq => hb a ha (hid.trans heq.symm)⟩
        · rintro ⟨rfl | ha, hne⟩
          · exact absurd hid hne
          · exact ha
      · rw [List.eraseP_cons_of_neg (by simpa using hid), List.mem_cons, ih hbs, List.mem_cons, or_and_right]
        exact or_congr_left ⟨fun heq => ⟨heq, heq ▸ hid⟩, And.left⟩

theorem distinct_withdraw (h : p.arrivals.Pairwise fun a b => a.entity ≠ b.entity) :
    (p.withdraw id).arrivals.Pairwise fun a b => a.entity ≠ b.entity :=
  h.sublist List.eraseP_sublist

theorem mem_insertSorted {es : List EntityId} : e ∈ Pending.insertSorted id es ↔ e = id ∨ e ∈ es := by
  induction es with
  | nil => simp [Pending.insertSorted]
  | cons d ds ih =>
      rw [Pending.insertSorted]
      split
      · exact List.mem_cons
      split
      case isTrue heq => simp [heq]
      case isFalse => rw [List.mem_cons, ih, List.mem_cons, or_left_comm]

/-! ## Queued changes in force -/

variable {z : Zone χ}

theorem applyPending_of_isEmpty (h : z.pending.isEmpty = true) : z.applyPending = ({ z with pending := {} }, []) := by
  simp [applyPending, takePending, settle, h]

theorem applyPending_of_not_isEmpty (h : z.pending.isEmpty = false) :
    z.applyPending =
      let staying := z.agents.filter fun a => !z.pending.isDeparting a.entity
      let agents := z.pending.arrivals.foldl (fun as a => place (welcome z.config a) as) staying
      ({ z with
          agents, members := agents.map (·.entity), pending := {}
          snapshots := z.pending.departures.foldl (·.erase ·) z.snapshots },
        z.pending.departures.map (.agentRemoved z.config.name)
          ++ z.pending.arrivals.map fun a => .agentAdded z.config.name a.entity) := by
  simp [applyPending, takePending, settle, h]

theorem pending_applyPending : z.applyPending.1.pending = {} := by
  cases h : z.pending.isEmpty with
  | true => rw [applyPending_of_isEmpty h]
  | false => rw [applyPending_of_not_isEmpty h]

theorem config_applyPending : z.applyPending.1.config = z.config := by
  cases h : z.pending.isEmpty with
  | true => rw [applyPending_of_isEmpty h]
  | false => rw [applyPending_of_not_isEmpty h]

theorem agents_applyPending :
    z.applyPending.1.agents = z.pending.arrivals.foldl (fun as a => place (welcome z.config a) as)
      (z.agents.filter fun a => !z.pending.isDeparting a.entity) := by
  cases h : z.pending.isEmpty with
  | true =>
      obtain ⟨ha, hd⟩ : z.pending.arrivals = [] ∧ z.pending.departures = [] := by
        simpa [Pending.isEmpty] using h
      rw [applyPending_of_isEmpty h, ha, List.foldl_nil]
      exact (List.filter_eq_self.mpr fun a _ => by simp [hd, Pending.isDeparting]).symm
  | false => rw [applyPending_of_not_isEmpty h]

theorem members_applyPending (hz : z.members = z.agents.map (·.entity)) :
    z.applyPending.1.members = z.applyPending.1.agents.map (·.entity) := by
  cases h : z.pending.isEmpty with
  | true => rw [applyPending_of_isEmpty h]; exact hz
  | false => rw [applyPending_of_not_isEmpty h]

theorem agents_publish : z.publish.agents = z.agents := by
  cases h : z.debugging <;> simp [publish, h]

theorem members_publish : z.publish.members = z.members := by
  cases h : z.debugging <;> simp [publish, h]

theorem pending_publish : z.publish.pending = z.pending := by
  cases h : z.debugging <;> simp [publish, h]

/-! ## Visits -/

variable {σ : Type} {kept : σ} {visit : σ → Agent χ → σ × Agent χ}

theorem map_entity_visitAll (hvisit : ∀ kept a, (visit kept a).2.entity = a.entity) :
    (visitAll visit kept agents).2.map (·.entity) = agents.map (·.entity) := by
  induction agents generalizing kept with
  | nil => rfl
  | cons a as ih => simp only [visitAll, List.map_cons, hvisit, ih]

end Zone

end Behavior
