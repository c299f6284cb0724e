import Mathlib.Data.List.FinRange
import Behavior.Proofs.Zone.Tenancy
/-!
# Rounds in any order

A round may update the agents one after another in any order, each of them as it finds the zone at its
turn. Two updates commute, for what agents see of the zone is published before the first of them
(`call_comm`); so a whole history comes out as if all rounds went by ascending identity
(`rounds_in_any_order`).
-/

namespace Behavior.Zone

variable {χ : Type}

/-! ## Orders -/

/-- An order of any number of agents, each once. -/
abbrev Order := (n : Nat) → Equiv.Perm (Fin n)

namespace Order

def places (o : Order) (n : Nat) : List Nat := (List.finRange n).map fun i => (o n i).val

theorem places_perm (o : Order) (n : Nat) : (o.places n).Perm (List.range n) := by
  have h : ((List.finRange n).map (o n)).Perm (List.finRange n) :=
    (List.perm_ext_iff_of_nodup ((List.nodup_finRange n).map (o n).injective) (List.nodup_finRange n)).mpr
      fun i => by simp [(o n).surjective i]
  simpa [places, Function.comp_def, ← List.map_coe_finRange_eq_range] using h.map Fin.val

end Order

/-! ## Updates one after another -/

/-- An agent's update during a round: where the agent stands, what it sees of the zone, and what its update
gives. -/
structure Call (χ : Type) where
  place : Nat
  roster : Roster
  turn : Agent.Turn χ

section Calls

variable [Character χ] (delta : UInt64)

/-- Updates the agent in a place, which sees the zone as it is now. -/
def call (z : Zone χ) (i : Nat) : List (Call χ) × Zone χ :=
  match z.agents[i]? with
  | none => ([], z)
  | some a =>
    let turn := a.update (some z.roster) delta
    ([⟨i, z.roster, turn⟩], { z with agents := z.agents.set i turn.agent })

def calls : List Nat → Zone χ → List (Call χ) × Zone χ
  | [], z => ([], z)
  | i :: is, z =>
    let (made, z) := z.call delta i
    let (others, z) := calls is z
    (made ++ others, z)

/-- A round that goes through the agents in the given order, and the updates it makes. -/
def updateIn (z : Zone χ) (o : Order) : List (Call χ) × Round χ :=
  let (z, journal) := z.applyPending
  let (made, z) := calls delta (o.places z.agents.length) z
  (made,
    { count := z.agents.length, zone := z.publish, journal := journal ++ made.flatMap (·.turn.journal) })

variable {delta} {z : Zone χ} {i j : Nat}

theorem call_call (hne : i ≠ j) : ((z.call delta i).2.call delta j).1 = (z.call delta j).1 := by
  cases hi : z.agents[i]? with
  | none => simp [call, hi]
  | some a => cases hj : z.agents[j]? <;> simp [call, hi, hj, List.getElem?_set_ne hne, roster]

theorem call_comm (hne : i ≠ j) :
    ((z.call delta i).2.call delta j).2 = ((z.call delta j).2.call delta i).2 := by
  cases hi : z.agents[i]? with
  | none => cases hj : z.agents[j]? <;> simp [call, hi, hj, List.getElem?_set_ne hne.symm]
  | some a =>
      cases hj : z.agents[j]? with
      | none => simp [call, hi, hj, List.getElem?_set_ne hne]
      | some b =>
          simp [call, hi, hj, List.getElem?_set_ne hne, List.getElem?_set_ne hne.symm, roster,
            List.set_comm _ _ hne]

theorem calls_perm {is js : List Nat} (h : is.Perm js) (z : Zone χ) :
    (calls delta is z).1.Perm (calls delta js z).1 ∧ (calls delta is z).2 = (calls delta js z).2 := by
  induction h generalizing z with
  | nil => exact ⟨.refl _, rfl⟩
  | cons i _ ih =>
      obtain ⟨hmade, hzone⟩ := ih (z.call delta i).2
      exact ⟨hmade.append_left _, hzone⟩
  | swap i j is =>
      by_cases hne : i = j
      · rw [hne]
        exact ⟨.refl _, rfl⟩
      · simp only [calls, call_call hne, call_call (Ne.symm hne), call_comm hne, and_true]
        rw [← List.append_assoc, ← List.append_assoc]
        exact List.perm_append_comm.append_right _
  | trans _ _ ih ih' => exact ⟨(ih z).1.trans (ih' z).1, (ih z).2.trans (ih' z).2⟩

/-- By ascending places each agent is updated once, and all see the same. -/
theorem calls_range' {done todo : List (Agent χ)} (h : z.agents = done ++ todo) :
    calls delta (List.range' done.length todo.length) z =
      (todo.mapIdx fun i a => ⟨done.length + i, z.roster, a.update (some z.roster) delta⟩,
        { z with agents := done ++ todo.map fun a => (a.update (some z.roster) delta).agent }) := by
  induction todo generalizing done z with
  | nil => simp [calls, ← h]
  | cons a as ih =>
      have hcall : z.call delta done.length =
          ([⟨done.length, z.roster, a.update (some z.roster) delta⟩],
            { z with agents := done ++ [(a.update (some z.roster) delta).agent] ++ as }) := by
        simp [call, h]
      have := @ih { z with agents := done ++ [(a.update (some z.roster) delta).agent] ++ as }
        (done ++ [(a.update (some z.roster) delta).agent]) rfl
      rw [List.length_append, List.length_singleton] at this
      simp only [List.length_cons, List.range'_succ, calls, hcall, this, List.mapIdx_cons]
      simp [roster, Nat.add_assoc, Nat.add_comm 1]

/-- What a round does by ascending identity. -/
def round (delta : UInt64) (z : Zone χ) : List (Call χ) :=
  let z := z.applyPending.1
  z.agents.mapIdx fun i a => ⟨i, z.roster, a.update (some z.roster) delta⟩

theorem updateIn_spec (z : Zone χ) (o : Order) :
    (z.updateIn delta o).1.Perm (z.round delta) ∧ (z.updateIn delta o).2.count = (z.update delta).count ∧
      (z.updateIn delta o).2.zone = (z.update delta).zone := by
  simp only [updateIn, update, round]
  generalize z.applyPending = r
  obtain ⟨hmade, hzone⟩ := @calls_perm _ _ delta _ _ (o.places_perm r.1.agents.length) r.1
  rw [List.range_eq_range'] at hmade hzone
  have hall := @calls_range' _ _ delta r.1 [] r.1.agents rfl
  rw [List.length_nil] at hall
  rw [hall] at hmade hzone
  simp only [Nat.zero_add] at hmade
  simp only [hzone, List.nil_append, List.map_map, Function.comp_def, agents_publish, List.length_map, and_true]
  exact hmade

end Calls

/-! ## In sequence -/

section Sequence

/-- The same zone, set to go through its agents in sequence. -/
def sequential (z : Zone χ) : Zone χ := { z with config := { z.config with parallel := false } }

variable {z : Zone χ}

@[simp] theorem roster_sequential : z.sequential.roster = z.roster := rfl

@[simp] theorem pending_sequential : z.sequential.pending = z.pending := rfl

theorem add_sequential {a : Agent χ} : z.sequential.add a = (z.add a).map sequential := by
  simp only [add, roster_sequential, pending_sequential]
  rw [apply_ite (Except.map sequential)]
  rfl

theorem remove_sequential {id : EntityId} :
    z.sequential.remove id = ((z.remove id).1, (z.remove id).2.sequential) := by
  rw [remove, remove]
  by_cases harriving : z.pending.isArriving id = true
  · rw [if_pos harriving, if_pos (by exact harriving)]
    rfl
  rw [if_neg harriving, if_neg (by exact harriving)]
  by_cases hmember : (!z.roster.contains id) = true
  · rw [if_pos hmember, if_pos (by exact hmember)]
  rw [if_neg hmember, if_neg (by exact hmember)]
  by_cases hdeparting : z.pending.isDeparting id = true
  · rw [if_pos hdeparting, if_pos (by exact hdeparting)]
  · rw [if_neg hdeparting, if_neg (by exact hdeparting)]
    rfl

theorem applyPending_sequential :
    z.sequential.applyPending = (z.applyPending.1.sequential, z.applyPending.2) := by
  cases h : z.pending.isEmpty with
  | true =>
      rw [applyPending_of_isEmpty h, applyPending_of_isEmpty (z := z.sequential) h]
      rfl
  | false =>
      rw [applyPending_of_not_isEmpty h, applyPending_of_not_isEmpty (z := z.sequential) h]
      rfl

theorem execute_sequential {ρ : Type} {id : EntityId} {visit : Agent χ → ρ × Agent χ} :
    (z.sequential.execute id visit).2.1 = (z.execute id visit).2.1.sequential := by
  simp only [execute, applyPending_sequential]
  generalize z.applyPending = r
  cases hs : (search (fun a : Agent χ => compare a.entity id) r.1.agents).index? with
  | none => simp [sequential, hs]
  | some i => cases hi : r.1.agents[i]? <;> simp [sequential, hs, hi]

theorem forEachFrom_sequential {σ : Type} {kept : σ} {visit : σ → Agent χ → σ × Agent χ} :
    (z.sequential.forEachFrom kept visit).2.1 = (z.forEachFrom kept visit).2.1.sequential := by
  simp only [forEachFrom, applyPending_sequential]
  rfl

variable [Character χ] {delta : UInt64}

theorem update_sequential :
    (z.sequential.update delta).count = (z.update delta).count ∧
      (z.sequential.update delta).zone = (z.update delta).zone.sequential ∧
      z.sequential.round delta = z.round delta := by
  simp only [update, round, applyPending_sequential]
  generalize z.applyPending = r
  cases h : r.1.debugging <;> simp [publish, sequential, roster, h]

theorem perform_sequential {op : Operation χ} : z.sequential.perform op = (z.perform op).sequential := by
  cases op with
  | add a =>
      rw [perform, perform, add_sequential]
      cases z.add a <;> rfl
  | remove id => rw [perform, perform, remove_sequential]
  | update delta => exact update_sequential.2.1
  | execute id visit => exact execute_sequential
  | forEach kept visit => exact forEachFrom_sequential
  | setDebugging on => cases on <;> rfl

end Sequence

/-! ## Histories -/

section Histories

variable [Character χ] (z : Zone χ)

def run (ops : List (Operation χ)) : Zone χ := ops.foldl (·.perform ·) z

def performIn (o : Order) : Operation χ → Zone χ
  | .update delta => (z.updateIn delta o).2.zone
  | op => z.perform op

def runIn (ops : List (Order × Operation χ)) : Zone χ := ops.foldl (fun z op => z.performIn op.1 op.2) z

variable {z} {ops : List (Order × Operation χ)}

theorem performIn_eq {o : Order} {op : Operation χ} : z.performIn o op = z.perform op := by
  cases op with
  | update delta => exact (z.updateIn_spec o).2.2
  | _ => rfl

theorem run_sequential : z.sequential.run (ops.map (·.2)) = (z.runIn ops).sequential := by
  induction ops generalizing z with
  | nil => rfl
  | cons op ops ih =>
      simp only [run, runIn, List.map_cons, List.foldl_cons, performIn_eq, perform_sequential] at ih ⊢
      exact ih

end Histories

/-- Whatever orders the rounds of a history have gone by, the zone is the one of a history without any
choice, and the next round, in any order, makes the same updates, each seeing the same of the zone. -/
theorem rounds_in_any_order [Character χ] (z : Zone χ) (ops : List (Order × Operation χ)) (o : Order)
    (delta : UInt64) :
    let parallel := z.runIn ops
    let sequential := z.sequential.run (ops.map (·.2))
    parallel.sequential = sequential ∧
      (parallel.updateIn delta o).1.Perm (sequential.round delta) ∧
      (parallel.updateIn delta o).2.count = (sequential.update delta).count ∧
      (parallel.updateIn delta o).2.zone.sequential = (sequential.update delta).zone := by
  intro parallel sequential
  have hrun : sequential = parallel.sequential := run_sequential
  obtain ⟨hmade, hcount, hzone⟩ := @updateIn_spec _ _ delta parallel o
  obtain ⟨hcount', hzone', hround⟩ := @update_sequential _ parallel _ delta
  rw [hrun, hround, hcount', hzone', hzone]
  exact ⟨rfl, hmade, hcount, rfl⟩

end Behavior.Zone
