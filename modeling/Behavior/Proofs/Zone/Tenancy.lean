import Mathlib.Data.Finset.Card
import Behavior.Proofs.Zone.Placing
/-!
# Tenants of a zone

The calls on a zone, and the books that somebody could keep who sees the calls and the answers of `add` and
`remove` only: which identities are accepted, and what has become of the agent that was accepted for each.
-/

namespace Behavior

variable {χ : Type}

namespace Zone

/-! ## Calls -/

inductive Operation (χ : Type) : Type 1 where
  | add (a : Agent χ)
  | remove (id : EntityId)
  | update (delta : UInt64)
  | execute {ρ : Type} (id : EntityId) (visit : Agent χ → ρ × Agent χ)
  | forEach {σ : Type} (kept : σ) (visit : σ → Agent χ → σ × Agent χ)
  | setDebugging (on : Bool)

/-- A visitor changes no identity. -/
def Operation.KeepsIdentity : Operation χ → Prop
  | execute _ visit => ∀ a, (visit a).2.entity = a.entity
  | forEach _ visit => ∀ kept a, (visit kept a).2.entity = a.entity
  | _ => True

def perform [Character χ] (z : Zone χ) : Operation χ → Zone χ
  | .add a => match z.add a with
    | .ok z => z
    | .error _ => z
  | .remove id => (z.remove id).2
  | .update delta => (z.update delta).zone
  | .execute id visit => (z.execute id visit).2.1
  | .forEach kept visit => (z.forEachFrom kept visit).2.1
  | .setDebugging on => z.setDebugging on

/-- The zone holds the given agents, and nothing is queued. -/
structure Houses (z : Zone χ) (agents : List (Agent χ)) : Prop where
  placed : z.agents = agents
  published : z.members = agents.map (·.entity)
  nothing_queued : z.pending = {}

/-- Exactly the given identities, strictly ascending. -/
def Lists (members : List EntityId) (ids : Finset EntityId) : Prop :=
  members.Pairwise (· < ·) ∧ ∀ id, id ∈ members ↔ id ∈ ids

/-! ## Tenants -/

structure Tenant (χ : Type) where
  agent : Agent χ
  /-- Whether no round or visit has begun since it was accepted. -/
  waiting : Bool

variable {a b : Agent χ} {t : Tenant χ} {ts : List (Tenant χ)} {id : EntityId}

/-- The agent as a round finds it. -/
def Tenant.settle (config : ZoneConfig) (t : Tenant χ) : Agent χ :=
  if t.waiting then welcome config t.agent else t.agent

theorem Tenant.entity_settle {config : ZoneConfig} : (t.settle config).entity = t.agent.entity := by
  rw [settle]
  split <;> rfl

/-- Tenants by strictly ascending identity. -/
def Ordered (ts : List (Tenant χ)) : Prop := ts.Pairwise fun t u => t.agent.entity < u.agent.entity

/-- Enters an agent among the tenants. -/
def enroll (a : Agent χ) : List (Tenant χ) → List (Tenant χ)
  | [] => [⟨a, true⟩]
  | t :: ts => if a.entity < t.agent.entity then ⟨a, true⟩ :: t :: ts else t :: enroll a ts

theorem mem_enroll : t ∈ enroll a ts ↔ t = ⟨a, true⟩ ∨ t ∈ ts := by
  induction ts with
  | nil => simp [enroll]
  | cons u us ih =>
      rw [enroll]
      split
      · simp
      · rw [List.mem_cons, ih, List.mem_cons, or_left_comm]

theorem Ordered.enroll (h : Ordered ts) (hnew : ∀ t ∈ ts, t.agent.entity ≠ a.entity) : Ordered (enroll a ts) := by
  induction ts with
  | nil => exact List.pairwise_singleton ..
  | cons u us ih =>
      obtain ⟨hu, hus⟩ := List.pairwise_cons.mp h
      rw [Zone.enroll]
      split
      case isTrue hlt =>
        refine .cons (fun t ht => ?_) h
        rcases List.mem_cons.mp ht with rfl | ht
        · exact hlt
        · exact EntityId.lt_trans hlt (hu t ht)
      case isFalse hnlt =>
        refine .cons (fun t ht => ?_) (ih hus fun t ht => hnew t (by simp [ht]))
        rcases mem_enroll.mp ht with rfl | ht
        · have hne := hnew u (by simp)
          exact (EntityId.lt_trichotomy.resolve_left hnlt).resolve_left fun h => hne h.symm
        · exact hu t ht

/-- Strikes out the tenant of an identity. -/
def strike (id : EntityId) (ts : List (Tenant χ)) : List (Tenant χ) := ts.filter (·.agent.entity != id)

theorem mem_strike : t ∈ strike id ts ↔ t ∈ ts ∧ t.agent.entity ≠ id := by
  simp [strike]

/-- Agents in their places. -/
def present (agents : List (Agent χ)) : List (Tenant χ) := agents.map (⟨·, false⟩)

theorem mem_present {agents : List (Agent χ)} : t ∈ present agents ↔ t.waiting = false ∧ t.agent ∈ agents := by
  constructor
  · intro h
    obtain ⟨a, ha, rfl⟩ := List.mem_map.mp h
    exact ⟨rfl, ha⟩
  · rintro ⟨hw, ha⟩
    exact List.mem_map.mpr ⟨t.agent, ha, by rw [← hw]⟩

end Zone

/-! ## Books -/

open Zone

/-- A zone with the books about it. -/
structure Tenancy (χ : Type) where
  zone : Zone χ
  /-- The identities that `add` has accepted and `remove` has not since. -/
  ids : Finset EntityId := ∅
  /-- The agents accepted for them and what has become of these, ids ascending. -/
  ledger : List (Tenant χ) := []

namespace Tenancy

def ofConfig (config : ZoneConfig) : Tenancy χ := { zone := .ofConfig config }

variable (s : Tenancy χ)

/-- The agents that the next round or visit finds. -/
def settled : List (Agent χ) := s.ledger.map (·.settle s.zone.config)

/-- What these see of the zone. -/
def roster : Roster := ⟨s.zone.config.name, s.settled.map (·.entity)⟩

/-- The updates of a round. -/
def turns [Character χ] (delta : UInt64) : List (Agent.Turn χ) :=
  s.settled.map fun a => a.update (some s.roster) delta

/-- The agents after a visit to one of them. -/
def visited {ρ : Type} (id : EntityId) (visit : Agent χ → ρ × Agent χ) : List (Agent χ) :=
  s.settled.map fun a => if a.entity = id then (visit a).2 else a

def idsAfter : Operation χ → Finset EntityId
  | .add a => match s.zone.add a with
    | .ok _ => insert a.entity s.ids
    | .error _ => s.ids
  | .remove id => if (s.zone.remove id).1 then s.ids.erase id else s.ids
  | _ => s.ids

variable [Character χ]

def ledgerAfter : Operation χ → List (Tenant χ)
  | .add a => match s.zone.add a with
    | .ok _ => enroll a s.ledger
    | .error _ => s.ledger
  | .remove id => if (s.zone.remove id).1 then strike id s.ledger else s.ledger
  | .update delta => present ((s.turns delta).map Agent.Turn.agent)
  | .execute id visit => present (s.visited id visit)
  | .forEach kept visit => present (visitAll visit kept s.settled).2
  | .setDebugging _ => s.ledger

def perform (op : Operation χ) : Tenancy χ where
  zone := s.zone.perform op
  ids := s.idsAfter op
  ledger := s.ledgerAfter op

def run (ops : List (Operation χ)) : Tenancy χ := ops.foldl (·.perform ·) s

/-- What the books say about the next call. -/
structure Serves : Prop where
  /-- For each accepted identity there is one tenant. -/
  accepted : ∀ id, id ∈ s.ids ↔ ∃ t ∈ s.ledger, t.agent.entity = id
  ordered : Ordered s.ledger
  add_known : ∀ a, a.entity ∈ s.ids → s.zone.add a = .error (.duplicateEntity a.entity)
  add_new : ∀ a, a.entity ∉ s.ids → ∃ z, s.zone.add a = .ok z ∧ z.members = s.zone.members
  remove_known : ∀ id ∈ s.ids, ∃ z, s.zone.remove id = (true, z) ∧ z.members = s.zone.members
  remove_unknown : ∀ id, id ∉ s.ids → s.zone.remove id = (false, s.zone)
  /-- A round updates every tenant once. -/
  update : ∀ delta,
    (s.zone.update delta).count = s.ids.card ∧
      (s.zone.update delta).zone.agents = (s.turns delta).map Agent.Turn.agent ∧
      (s.zone.update delta).journal = s.zone.applyPending.2 ++ (s.turns delta).flatMap Agent.Turn.journal ∧
      Lists (s.zone.update delta).zone.members s.ids
  /-- A visit to an identity finds its tenant. -/
  execute : ∀ {ρ : Type} id (visit : Agent χ → ρ × Agent χ), (∀ a, (visit a).2.entity = a.entity) →
    (s.zone.execute id visit).1 = (s.settled.find? (·.entity == id)).map (fun a => (visit a).1) ∧
      (s.zone.execute id visit).2.1.agents = s.visited id visit ∧
      Lists (s.zone.execute id visit).2.1.members s.ids
  /-- A visit to all finds every tenant once. -/
  forEach : ∀ {σ : Type} kept (visit : σ → Agent χ → σ × Agent χ),
    (∀ kept a, (visit kept a).2.entity = a.entity) →
    (s.zone.forEachFrom kept visit).1 = (visitAll visit kept s.settled).1 ∧
      (s.zone.forEachFrom kept visit).2.1.agents = (visitAll visit kept s.settled).2 ∧
      Lists (s.zone.forEachFrom kept visit).2.1.members s.ids

end Tenancy

end Behavior
