import Behavior.Proofs.Zone.Membership
import Behavior.Proofs.Zone.Rounds
/-!
# Visitors that change identities

A visitor has the agent to itself: it may also bind it to another character, and with it to another identity.
The zone does not look at the agents again after a visit, so it stays in order exactly as long as no visitor
does that (`orderly_iff_keeps`).
-/

namespace Behavior

variable {χ : Type}

/-! ## Identities under the operations of an agent -/

namespace Agent

def Operation.identity? : Operation χ → Option EntityId
  | setCharacter entity _ => some entity
  | _ => none

variable [Character χ] {a : Agent χ}

theorem entity_perform {op : Operation χ} : (a.perform op).entity = op.identity?.getD a.entity := by
  cases op with
  | update home delta => exact entity_update
  | _ => rfl

theorem entity_run {ops : List (Operation χ)} :
    (a.run ops).entity = (ops.filterMap Operation.identity?).getLastD a.entity := by
  induction ops generalizing a with
  | nil => rfl
  | cons op ops ih =>
      have hrun : (a.run (op :: ops)).entity = ((a.perform op).run ops).entity := rfl
      rw [hrun, ih, entity_perform, List.filterMap_cons]
      cases op.identity? with
      | none => rfl
      | some id => rw [List.getLastD_cons]; rfl

end Agent

/-! ## Order -/

namespace Zone

/-- What the zone's searches rely on, and what they then find. -/
structure Orderly (z : Zone χ) : Prop where
  ascending : Ascending z.agents
  published : z.members = z.agents.map (·.entity)
  found : ∀ {ρ : Type} id (visit : Agent χ → ρ × Agent χ),
    (z.execute id visit).1 = (z.applyPending.1.agents.find? (·.entity == id)).map fun a => (visit a).1

/-- No agent that the call visits comes out with another identity. -/
def Keeps (z : Zone χ) : Operation χ → Prop
  | .execute id visit => ∀ a ∈ z.applyPending.1.agents, a.entity = id → (visit a).2.entity = id
  | .forEach kept visit =>
    (visitAll visit kept z.applyPending.1.agents).2.map (·.entity) = z.applyPending.1.agents.map (·.entity)
  | _ => True

/-- A visitor made of operations keeps an identity that is the last, if any, that it binds. -/
theorem keeps_execute_run [Character χ] {z : Zone χ} {id : EntityId} {ops : Agent χ → List (Agent.Operation χ)} :
    z.Keeps (.execute id fun a => ((), a.run (ops a))) ↔
      ∀ a ∈ z.applyPending.1.agents, a.entity = id →
        ((ops a).filterMap Agent.Operation.identity?).getLastD id = id := by
  refine forall₂_congr fun a _ => forall_congr' fun heq => ?_
  rw [Agent.entity_run, heq]

end Zone

open Zone

namespace Tenancy.Sound

variable {s : Tenancy χ}

theorem orderly (h : s.Sound) : s.zone.Orderly where
  ascending := h.ascending
  published := h.published
  found id visit := by rw [(h.execute_visited id visit).1, h.houses_settled.placed]

theorem entity_visited_iff {ρ : Type} {id : EntityId} {visit : Agent χ → ρ × Agent χ} :
    (s.visited id visit).map (·.entity) = s.settled.map (·.entity) ↔
      ∀ a ∈ s.settled, a.entity = id → (visit a).2.entity = id := by
  rw [visited, List.map_map, List.map_inj_left]
  refine forall₂_congr fun a _ => ?_
  by_cases heq : a.entity = id <;> simp [heq]

variable [Character χ]

theorem exists_of_keepsIdentity (h : s.Sound) {op : Operation χ} (hop : op.KeepsIdentity) :
    ∃ s' : Tenancy χ, s'.Sound ∧ s'.zone = s.zone.perform op :=
  ⟨s.perform op, h.perform hop, rfl⟩

theorem exists_of_keeps (h : s.Sound) {op : Operation χ} (hkeeps : s.zone.Keeps op) :
    ∃ s' : Tenancy χ, s'.Sound ∧ s'.zone = s.zone.perform op := by
  cases op with
  | execute id visit =>
      obtain ⟨-, hagents, hmembers, hpending⟩ := h.execute_visited id visit
      rw [Keeps, h.houses_settled.placed] at hkeeps
      have hids := entity_visited_iff.mpr hkeeps
      exact ⟨_, h.renewed ⟨hagents, by rw [hmembers, hids], hpending⟩ hids, rfl⟩
  | forEach kept visit =>
      obtain ⟨-, hagents, hmembers, hpending⟩ := h.forEach_visited kept visit
      rw [Keeps, h.houses_settled.placed] at hkeeps
      exact ⟨_, h.renewed ⟨hagents, by rw [hmembers, hkeeps], hpending⟩ hkeeps, rfl⟩
  | _ => exact h.exists_of_keepsIdentity trivial

theorem keeps_of_published (h : s.Sound) {op : Operation χ}
    (hpublished : (s.zone.perform op).members = (s.zone.perform op).agents.map (·.entity)) : s.zone.Keeps op := by
  cases op with
  | execute id visit =>
      obtain ⟨-, hagents, hmembers, -⟩ := h.execute_visited id visit
      rw [Keeps, h.houses_settled.placed]
      rw [Zone.perform, hagents, hmembers] at hpublished
      exact entity_visited_iff.mp hpublished.symm
  | forEach kept visit =>
      obtain ⟨-, hagents, hmembers, -⟩ := h.forEach_visited kept visit
      rw [Keeps, h.houses_settled.placed]
      rw [Zone.perform, hagents, hmembers] at hpublished
      exact hpublished.symm
  | _ => trivial

theorem exists_of_run {config : ZoneConfig} {ops past : List (Operation χ)}
    (hkeeps : ∀ past op, past ++ [op] <+: ops → ∀ s : Tenancy χ, s.Sound →
      s.zone = (Zone.ofConfig config).run past → s.zone.Keeps op)
    (hpast : past <+: ops) : ∃ s : Tenancy χ, s.Sound ∧ s.zone = (Zone.ofConfig config).run past := by
  induction past using List.reverseRecOn with
  | nil => exact ⟨_, sound_ofConfig config, rfl⟩
  | append_singleton past op ih =>
      obtain ⟨s, hs, hzone⟩ := ih ((List.prefix_append past [op]).trans hpast)
      obtain ⟨s', hs', hzone'⟩ := hs.exists_of_keeps (hkeeps past op hpast s hs hzone)
      exact ⟨s', hs', by rw [hzone', hzone, Zone.run, Zone.run, List.foldl_append]; rfl⟩

end Tenancy.Sound

namespace Zone

/-- A zone is in order throughout a history exactly if each visit of it leaves the identities alone. -/
theorem orderly_iff_keeps [Character χ] (config : ZoneConfig) (ops : List (Operation χ)) :
    (∀ past, past <+: ops → ((Zone.ofConfig config).run past).Orderly) ↔
      ∀ past op, past ++ [op] <+: ops → ((Zone.ofConfig config).run past).Keeps op := by
  constructor
  · intro horderly past op hpast
    have hkeeps : ∀ past op, past ++ [op] <+: ops → ∀ s : Tenancy χ, s.Sound →
        s.zone = (Zone.ofConfig config).run past → s.zone.Keeps op := by
      intro past op hpast s hs hzone
      refine hs.keeps_of_published ?_
      have hnext : s.zone.perform op = (Zone.ofConfig config).run (past ++ [op]) := by
        rw [hzone, run, run, List.foldl_append]
        rfl
      rw [hnext]
      exact (horderly _ hpast).published
    obtain ⟨s, hs, hzone⟩ := Tenancy.Sound.exists_of_run hkeeps ((List.prefix_append past [op]).trans hpast)
    exact hzone ▸ hkeeps past op hpast s hs hzone
  · intro hkeeps past hpast
    obtain ⟨s, hs, hzone⟩ :=
      Tenancy.Sound.exists_of_run (fun past op hpast s _ hzone => hzone ▸ hkeeps past op hpast) hpast
    exact hzone ▸ hs.orderly

def rebinding : List (Operation Unit) :=
  let agent := fun id => { entity := ⟨id⟩, character := (), behavior := .ofNode "" .waiting }
  [.add (agent 1), .add (agent 2), .update 10, .execute ⟨1⟩ fun a => ((), a.setCharacter ⟨5⟩ ())]

/-- A visitor binds the first of two agents to a greater identity than the second has: the agents are no longer
ascending, the members are those of before, and the agent is not found by its identity. -/
theorem rebinding_disorders :
    let z := (Zone.ofConfig {}).run rebinding
    z.agents.map (·.entity) = [⟨5⟩, ⟨2⟩] ∧ z.members = [⟨1⟩, ⟨2⟩] ∧
      (z.execute ⟨5⟩ fun a => (a.tick, a)).1 = none ∧ ¬z.Orderly := by
  intro z
  have hagents : z.agents.map (·.entity) = [⟨5⟩, ⟨2⟩] := by decide +kernel
  have hmembers : z.members = [⟨1⟩, ⟨2⟩] := by decide +kernel
  refine ⟨hagents, hmembers, by decide +kernel, fun h => ?_⟩
  have := h.published
  rw [hagents, hmembers] at this
  exact absurd this (by decide)

end Zone

end Behavior
