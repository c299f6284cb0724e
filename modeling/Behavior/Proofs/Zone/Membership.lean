import Behavior.Proofs.Agent.Operation
import Behavior.Proofs.Zone.Tenancy
/-!
# Membership of a zone

A zone has the tenants in its books: its answers are read off the accepted identities, and a round or visit
finds the accepted agents, each once.
-/

namespace Behavior

open Zone

variable {χ : Type}

namespace Tenancy

/-! ## The zone and its books agree -/

/-- How what is placed, what is published and what is queued make up the tenants. -/
structure Sound (s : Tenancy χ) : Prop where
  accepted : ∀ id, id ∈ s.ids ↔ ∃ t ∈ s.ledger, t.agent.entity = id
  ordered : Ordered s.ledger
  ascending : Ascending s.zone.agents
  published : s.zone.members = s.zone.agents.map (·.entity)
  /-- Only members are about to leave. -/
  leaving : ∀ id ∈ s.zone.pending.departures, id ∈ s.zone.members
  distinct : s.zone.pending.arrivals.Pairwise fun a b => a.entity ≠ b.entity
  /-- A member that arrives again leaves first. -/
  returning : ∀ a ∈ s.zone.pending.arrivals, a.entity ∈ s.zone.members → a.entity ∈ s.zone.pending.departures
  waiting : ∀ a, ⟨a, true⟩ ∈ s.ledger ↔ a ∈ s.zone.pending.arrivals
  staying : ∀ a, ⟨a, false⟩ ∈ s.ledger ↔ a ∈ s.zone.agents ∧ a.entity ∉ s.zone.pending.departures

namespace Sound

variable {s : Tenancy χ} {a : Agent χ} {id : EntityId}

theorem contains_iff (h : s.Sound) : s.zone.roster.contains id = true ↔ id ∈ s.zone.members := by
  refine Roster.contains_iff ?_
  show s.zone.members.Pairwise (· < ·)
  rw [h.published, List.pairwise_map]
  exact h.ascending

/-- An identity is accepted if it arrives, or if it is a member that does not leave. -/
theorem accepted_iff (h : s.Sound) :
    id ∈ s.ids ↔ (∃ a ∈ s.zone.pending.arrivals, a.entity = id) ∨
      id ∈ s.zone.members ∧ id ∉ s.zone.pending.departures := by
  rw [h.accepted, h.published, List.mem_map]
  constructor
  · rintro ⟨⟨a, waiting⟩, ht, rfl⟩
    cases waiting with
    | true => exact .inl ⟨a, (h.waiting a).mp ht, rfl⟩
    | false =>
        obtain ⟨ha, hd⟩ := (h.staying a).mp ht
        exact .inr ⟨⟨a, ha, rfl⟩, hd⟩
  · rintro (⟨a, ha, rfl⟩ | ⟨⟨a, ha, rfl⟩, hd⟩)
    · exact ⟨_, (h.waiting a).mpr ha, rfl⟩
    · exact ⟨_, (h.staying a).mpr ⟨ha, hd⟩, rfl⟩

/-! ## Arrivals and departures -/

theorem add_of_mem (h : s.Sound) (ha : a.entity ∈ s.ids) : s.zone.add a = .error (.duplicateEntity a.entity) := by
  rw [add, if_pos]
  rw [Bool.or_eq_true, Bool.and_eq_true, Bool.not_eq_true', ← Bool.not_eq_true, h.contains_iff, isArriving_iff,
    isDeparting_iff]
  exact (h.accepted_iff.mp ha).symm

theorem add_of_not_mem (h : s.Sound) (ha : a.entity ∉ s.ids) :
    s.zone.add a = .ok { s.zone with pending := s.zone.pending.arrive a } := by
  rw [add, if_neg]
  rw [Bool.or_eq_true, Bool.and_eq_true, Bool.not_eq_true', ← Bool.not_eq_true, h.contains_iff, isArriving_iff,
    isDeparting_iff]
  exact fun hor => ha (h.accepted_iff.mpr hor.symm)

theorem remove_of_not_mem (h : s.Sound) (hid : id ∉ s.ids) : s.zone.remove id = (false, s.zone) := by
  rw [h.accepted_iff, not_or] at hid
  obtain ⟨harriving, hmember⟩ := hid
  rw [remove, if_neg (by rwa [isArriving_iff])]
  by_cases hm : id ∈ s.zone.members
  · have hd : s.zone.pending.isDeparting id = true := isDeparting_iff.mpr (not_not.mp fun hd => hmember ⟨hm, hd⟩)
    rw [if_neg (by simp [h.contains_iff, hm]), if_pos hd]
  · rw [if_pos (by simp [Bool.eq_false_iff, h.contains_iff, hm])]

theorem remove_of_arriving (harriving : ∃ a ∈ s.zone.pending.arrivals, a.entity = id) :
    s.zone.remove id = (true, { s.zone with pending := s.zone.pending.withdraw id }) := by
  rw [remove, if_pos (by rwa [isArriving_iff])]

theorem remove_of_staying (h : s.Sound) (harriving : ¬∃ a ∈ s.zone.pending.arrivals, a.entity = id)
    (hmember : id ∈ s.zone.members) (hstays : id ∉ s.zone.pending.departures) :
    s.zone.remove id = (true, { s.zone with pending := s.zone.pending.depart id }) := by
  rw [remove, if_neg (by rwa [isArriving_iff]), if_neg (by simp [h.contains_iff, hmember]),
    if_neg (by rwa [isDeparting_iff])]

/-- An accepted arrival waits. -/
theorem enrolled (h : s.Sound) (ha : a.entity ∉ s.ids) :
    Sound
      { zone := { s.zone with pending := s.zone.pending.arrive a }
        ids := insert a.entity s.ids
        ledger := enroll a s.ledger } := by
  have hnew := ha
  rw [h.accepted_iff, not_or] at hnew
  obtain ⟨harriving, hmember⟩ := hnew
  exact
    { accepted := fun id => by
        rw [Finset.mem_insert, h.accepted]
        simp only [mem_enroll, or_and_right, exists_or, exists_eq_left, eq_comm]
      ordered := h.ordered.enroll fun t ht heq => ha ((h.accepted _).mpr ⟨t, ht, heq⟩)
      ascending := h.ascending
      published := h.published
      leaving := h.leaving
      distinct := by
        refine List.pairwise_append.mpr ⟨h.distinct, List.pairwise_singleton .., fun b hb c hc heq => ?_⟩
        rw [List.mem_singleton.mp hc] at heq
        exact harriving ⟨b, hb, heq⟩
      returning := fun b hb hm => by
        rcases List.mem_append.mp hb with hb | hb
        · exact h.returning b hb hm
        · rw [List.mem_singleton.mp hb] at hm ⊢
          exact not_not.mp fun hd => hmember ⟨hm, hd⟩
      waiting := fun b => by
        rw [mem_enroll, h.waiting]
        simp [Pending.arrive, or_comm]
      staying := fun b => by
        rw [mem_enroll, h.staying]
        simp [Pending.arrive] }

/-- A departure is accepted by a queue that no longer has the identity and has the others as before. -/
theorem struck (h : s.Sound) {p : Pending χ} (hleaving : ∀ e ∈ p.departures, e ∈ s.zone.members)
    (hdistinct : p.arrivals.Pairwise fun a b => a.entity ≠ b.entity)
    (harrivals : ∀ a, a ∈ p.arrivals ↔ a ∈ s.zone.pending.arrivals ∧ a.entity ≠ id)
    (hdepartures : ∀ e ∈ s.zone.pending.departures, e ∈ p.departures)
    (hstaying : ∀ e ∈ s.zone.members, e ∉ p.departures ↔ e ∉ s.zone.pending.departures ∧ e ≠ id) :
    Sound { zone := { s.zone with pending := p }, ids := s.ids.erase id, ledger := strike id s.ledger } where
  accepted e := by
    rw [Finset.mem_erase, h.accepted]
    constructor
    · rintro ⟨hne, t, ht, rfl⟩
      exact ⟨t, mem_strike.mpr ⟨ht, hne⟩, rfl⟩
    · rintro ⟨t, ht, rfl⟩
      obtain ⟨ht, hne⟩ := mem_strike.mp ht
      exact ⟨hne, t, ht, rfl⟩
  ordered := List.Pairwise.filter _ h.ordered
  ascending := h.ascending
  published := h.published
  leaving := hleaving
  distinct := hdistinct
  returning a ha hm := hdepartures _ (h.returning a ((harrivals a).mp ha).1 hm)
  waiting a := by rw [mem_strike, h.waiting, harrivals]
  staying a := by
    rw [mem_strike, h.staying, and_assoc]
    exact and_congr_right fun ha => (hstaying _ (h.published ▸ List.mem_map_of_mem ha)).symm

theorem withdrawn (h : s.Sound) (harriving : ∃ a ∈ s.zone.pending.arrivals, a.entity = id) :
    Sound
      { zone := { s.zone with pending := s.zone.pending.withdraw id }
        ids := s.ids.erase id
        ledger := strike id s.ledger } := by
  refine h.struck h.leaving (distinct_withdraw h.distinct) (fun a => mem_withdraw h.distinct) (fun e he => he) fun e he => ?_
  -- who arrives and is a member leaves already
  refine iff_self_and.mpr fun hd heq => hd ?_
  obtain ⟨a, ha, rfl⟩ := harriving
  subst heq
  exact h.returning a ha he

theorem departed (h : s.Sound) (harriving : ¬∃ a ∈ s.zone.pending.arrivals, a.entity = id)
    (hmember : id ∈ s.zone.members) :
    Sound
      { zone := { s.zone with pending := s.zone.pending.depart id }
        ids := s.ids.erase id
        ledger := strike id s.ledger } := by
  refine h.struck (fun e he => ?_) h.distinct (fun a => ?_) (fun e he => mem_insertSorted.mpr (.inr he)) fun e _ => ?_
  · rcases mem_insertSorted.mp he with rfl | he
    · exact hmember
    · exact h.leaving e he
  · exact iff_self_and.mpr fun ha heq => harriving ⟨a, ha, heq⟩
  · rw [Pending.depart, mem_insertSorted, not_or, and_comm]

/-- A departure is queued or takes an arrival back. -/
theorem remove_of_mem (h : s.Sound) (hid : id ∈ s.ids) :
    ∃ q, (q = s.zone.pending.withdraw id ∨ q = s.zone.pending.depart id) ∧
      s.zone.remove id = (true, { s.zone with pending := q }) ∧
        Sound { zone := { s.zone with pending := q }, ids := s.ids.erase id, ledger := strike id s.ledger } := by
  by_cases harriving : ∃ a ∈ s.zone.pending.arrivals, a.entity = id
  · exact ⟨_, .inl rfl, remove_of_arriving harriving, h.withdrawn harriving⟩
  · obtain ⟨hmember, hstays⟩ := (h.accepted_iff.mp hid).resolve_left harriving
    exact ⟨_, .inr rfl, h.remove_of_staying harriving hmember hstays, h.departed harriving hmember⟩

/-! ## Rounds and visits -/

theorem ascending_settled (h : s.Sound) : Ascending s.settled := by
  rw [settled, Ascending, List.pairwise_map]
  exact h.ordered.imp fun hlt => by rwa [Tenant.entity_settle, Tenant.entity_settle]

theorem mem_ids (h : s.Sound) : id ∈ s.ids ↔ id ∈ s.settled.map (·.entity) := by
  rw [h.accepted, settled, List.map_map, List.mem_map]
  simp only [Function.comp_apply, Tenant.entity_settle]

/-- With the queued changes in force the zone houses the tenants. -/
theorem houses_settled (h : s.Sound) : s.zone.applyPending.1.Houses s.settled := by
  have hstays : ∀ b, b ∈ s.zone.agents.filter (fun a => !s.zone.pending.isDeparting a.entity) ↔
      b ∈ s.zone.agents ∧ b.entity ∉ s.zone.pending.departures := fun b => by
    rw [List.mem_filter, Bool.not_eq_true', ← Bool.not_eq_true, isDeparting_iff]
  obtain ⟨hascending, hmem⟩ := foldl_place_spec s.zone.config h.ascending.filter h.distinct
    fun a ha b hb heq => by
      obtain ⟨hb, hd⟩ := (hstays b).mp hb
      exact hd (heq ▸ h.returning a ha (h.published ▸ heq ▸ List.mem_map_of_mem hb))
  have heq : s.zone.applyPending.1.agents = s.settled := by
    rw [agents_applyPending]
    refine hascending.eq_of_mem_iff h.ascending_settled fun b => ?_
    rw [hmem, hstays, settled, List.mem_map]
    constructor
    · rintro (hb | ⟨a, ha, rfl⟩)
      · exact ⟨⟨b, false⟩, (h.staying b).mpr hb, rfl⟩
      · exact ⟨⟨a, true⟩, (h.waiting a).mpr ha, rfl⟩
    · rintro ⟨⟨a, waiting⟩, ht, rfl⟩
      cases waiting with
      | true => exact .inr ⟨a, (h.waiting a).mp ht, rfl⟩
      | false => exact .inl ((h.staying a).mp ht)
  exact ⟨heq, by rw [members_applyPending h.published, heq], pending_applyPending⟩

/-- The books remain right if agents take over from the tenants one for one. -/
theorem renewed (h : s.Sound) {z : Zone χ} {agents : List (Agent χ)} (hz : z.Houses agents)
    (hagents : agents.map (·.entity) = s.settled.map (·.entity)) :
    Sound { zone := z, ids := s.ids, ledger := present agents } := by
  have hascending : Ascending agents := by
    have := h.ascending_settled
    rw [Ascending, ← List.pairwise_map] at this ⊢
    rwa [hagents]
  exact
    { accepted := fun id => by
        rw [h.mem_ids, ← hagents, present]
        simp
      ordered := List.pairwise_map.mpr hascending
      ascending := hz.placed ▸ hascending
      published := by rw [hz.published, hz.placed]
      leaving := by simp [hz.nothing_queued]
      distinct := by simp [hz.nothing_queued]
      returning := by simp [hz.nothing_queued]
      waiting := fun a => by simp [mem_present, hz.nothing_queued]
      staying := fun a => by simp [mem_present, hz.nothing_queued, hz.placed] }

theorem card_ids (h : s.Sound) : s.ids.card = s.settled.length := by
  have hids : s.ids = (s.settled.map (·.entity)).toFinset := by
    ext id
    rw [h.mem_ids, List.mem_toFinset]
  have hnodup : (s.settled.map (·.entity)).Nodup :=
    List.pairwise_map.mpr (h.ascending_settled.imp EntityId.ne_of_lt)
  rw [hids, List.toFinset_card_of_nodup hnodup, List.length_map]

/-- What a zone publishes that houses agents in place of the tenants. -/
theorem lists (h : s.Sound) {z : Zone χ} {agents : List (Agent χ)} (hz : z.Houses agents)
    (hagents : agents.map (·.entity) = s.settled.map (·.entity)) : Lists z.members s.ids := by
  rw [hz.published, hagents]
  exact ⟨List.pairwise_map.mpr h.ascending_settled, fun id => h.mem_ids.symm⟩

variable {ρ σ : Type} {visit : Agent χ → ρ × Agent χ} {kept : σ} {visitor : σ → Agent χ → σ × Agent χ}

theorem entity_visited (hvisit : ∀ a, (visit a).2.entity = a.entity) :
    (s.visited id visit).map (·.entity) = s.settled.map (·.entity) := by
  rw [visited, List.map_map]
  refine List.map_congr_left fun a _ => ?_
  rw [Function.comp_apply]
  split
  · exact hvisit a
  · rfl

/-- Whatever the visitor does, it is shown the tenant, and what is published stays. -/
theorem execute_visited (h : s.Sound) (id : EntityId) (visit : Agent χ → ρ × Agent χ) :
    (s.zone.execute id visit).1 = (s.settled.find? (·.entity == id)).map (fun a => (visit a).1) ∧
      (s.zone.execute id visit).2.1.agents = s.visited id visit ∧
      (s.zone.execute id visit).2.1.members = s.settled.map (·.entity) ∧
      (s.zone.execute id visit).2.1.pending = {} := by
  obtain ⟨hagents, hmembers, hpending⟩ := h.houses_settled
  rcases @search_id _ _ _ id h.ascending_settled with ⟨i, a, hs, ha, rfl⟩ | ⟨i, hs, -, hbelow, habove⟩
  · have hfind := h.ascending_settled.find?_eq (List.mem_of_getElem? ha)
    have hset := h.ascending_settled.set_eq_map ha fun a => (visit a).2
    simp only [execute, hagents, hs, Place.index?, ha, hfind]
    exact ⟨rfl, hset, hmembers, hpending⟩
  · have hnone : ∀ a ∈ s.settled, a.entity ≠ id := fun a ha heq => by
      rw [← List.take_append_drop i s.settled, List.mem_append] at ha
      rcases ha with ha | ha
      · exact EntityId.ne_of_lt (hbelow a ha) heq
      · exact EntityId.ne_of_lt (habove a ha) heq.symm
    have hsame : s.visited id visit = s.settled := by
      refine (List.map_congr_left fun a ha => ?_).trans (List.map_id _)
      rw [if_neg (hnone a ha), id_eq]
    have hfind : s.settled.find? (·.entity == id) = none := by
      rw [List.find?_eq_none]
      exact fun a ha => by simp [hnone a ha]
    simp only [execute, hagents, hs, Place.index?, hfind, hsame, true_and]
    exact ⟨rfl, hmembers, hpending⟩

theorem execute_spec (h : s.Sound) (id : EntityId) (hvisit : ∀ a, (visit a).2.entity = a.entity) :
    (s.zone.execute id visit).1 = (s.settled.find? (·.entity == id)).map (fun a => (visit a).1) ∧
      (s.zone.execute id visit).2.1.Houses (s.visited id visit) := by
  obtain ⟨hanswer, hagents, hmembers, hpending⟩ := h.execute_visited id visit
  exact ⟨hanswer, hagents, by rw [hmembers, entity_visited hvisit], hpending⟩

theorem forEach_visited (h : s.Sound) (kept : σ) (visitor : σ → Agent χ → σ × Agent χ) :
    (s.zone.forEachFrom kept visitor).1 = (visitAll visitor kept s.settled).1 ∧
      (s.zone.forEachFrom kept visitor).2.1.agents = (visitAll visitor kept s.settled).2 ∧
      (s.zone.forEachFrom kept visitor).2.1.members = s.settled.map (·.entity) ∧
      (s.zone.forEachFrom kept visitor).2.1.pending = {} := by
  obtain ⟨hagents, hmembers, hpending⟩ := h.houses_settled
  simp only [forEachFrom, hagents, true_and]
  exact ⟨hmembers, hpending⟩

theorem forEach_spec (h : s.Sound) (kept : σ) (hvisit : ∀ kept a, (visitor kept a).2.entity = a.entity) :
    (s.zone.forEachFrom kept visitor).1 = (visitAll visitor kept s.settled).1 ∧
      (s.zone.forEachFrom kept visitor).2.1.Houses (visitAll visitor kept s.settled).2 := by
  obtain ⟨hkept, hagents, hmembers, hpending⟩ := h.forEach_visited kept visitor
  exact ⟨hkept, hagents, by rw [hmembers, map_entity_visitAll hvisit], hpending⟩

variable [Character χ] {delta : UInt64}

theorem entity_turns : ((s.turns delta).map Agent.Turn.agent).map (·.entity) = s.settled.map (·.entity) := by
  rw [turns, List.map_map, List.map_map]
  exact List.map_congr_left fun a _ => Agent.entity_update

theorem update_spec (h : s.Sound) (delta : UInt64) :
    (s.zone.update delta).count = s.ids.card ∧
      (s.zone.update delta).zone.Houses ((s.turns delta).map Agent.Turn.agent) ∧
      (s.zone.update delta).journal =
        s.zone.applyPending.2 ++ (s.turns delta).flatMap Agent.Turn.journal := by
  obtain ⟨hagents, hmembers, hpending⟩ := h.houses_settled
  have hroster : s.zone.applyPending.1.roster = s.roster := by
    rw [Zone.roster, config_applyPending, hmembers, Tenancy.roster]
  simp only [update, hagents, hroster, agents_publish]
  refine ⟨?_, ⟨?_, ?_, ?_⟩, rfl⟩
  · rw [h.card_ids, List.length_map, List.length_map]
  · rw [agents_publish, turns]
  · rw [members_publish, hmembers, ← entity_turns]
  · rw [pending_publish, hpending]

/-! ## Every call, and every run -/

theorem perform (h : s.Sound) {op : Operation χ} (hop : op.KeepsIdentity) : (s.perform op).Sound := by
  cases op with
  | add a =>
      by_cases ha : a.entity ∈ s.ids
      · simpa [Tenancy.perform, Zone.perform, idsAfter, ledgerAfter, h.add_of_mem ha] using h
      · simpa [Tenancy.perform, Zone.perform, idsAfter, ledgerAfter, h.add_of_not_mem ha] using h.enrolled ha
  | remove id =>
      by_cases hid : id ∈ s.ids
      · obtain ⟨q, -, hremove, hsound⟩ := h.remove_of_mem hid
        simpa [Tenancy.perform, Zone.perform, idsAfter, ledgerAfter, hremove] using hsound
      · simpa [Tenancy.perform, Zone.perform, idsAfter, ledgerAfter, h.remove_of_not_mem hid] using h
  | update delta => exact h.renewed (h.update_spec delta).2.1 entity_turns
  | execute id visit => exact h.renewed (h.execute_spec id hop).2 (entity_visited hop)
  | forEach kept visit => exact h.renewed (h.forEach_spec kept hop).2 (map_entity_visitAll hop)
  | setDebugging on =>
      cases on <;> exact
        { accepted := h.accepted, ordered := h.ordered, ascending := h.ascending, published := h.published
          leaving := h.leaving, distinct := h.distinct, returning := h.returning, waiting := h.waiting
          staying := h.staying }

theorem run (h : s.Sound) {ops : List (Operation χ)} (hops : ∀ op ∈ ops, op.KeepsIdentity) : (s.run ops).Sound := by
  induction ops generalizing s with
  | nil => exact h
  | cons op ops ih => exact ih (h.perform (hops op (by simp))) fun op' h' => hops op' (by simp [h'])

theorem serves (h : s.Sound) : s.Serves where
  accepted := h.accepted
  ordered := h.ordered
  add_known a ha := h.add_of_mem ha
  add_new a ha := ⟨_, h.add_of_not_mem ha, rfl⟩
  remove_known id hid := by
    obtain ⟨q, -, hremove, -⟩ := h.remove_of_mem hid
    exact ⟨_, hremove, rfl⟩
  remove_unknown id hid := h.remove_of_not_mem hid
  update delta := by
    obtain ⟨hcount, hhouses, hjournal⟩ := h.update_spec delta
    exact ⟨hcount, hhouses.placed, hjournal, h.lists hhouses entity_turns⟩
  execute id visit hvisit := by
    obtain ⟨hanswer, hhouses⟩ := h.execute_spec id hvisit
    exact ⟨hanswer, hhouses.placed, h.lists hhouses (entity_visited hvisit)⟩
  forEach kept visit hvisit := by
    obtain ⟨hkept, hhouses⟩ := h.forEach_spec kept hvisit
    exact ⟨hkept, hhouses.placed, h.lists hhouses (map_entity_visitAll hvisit)⟩

end Sound

theorem sound_ofConfig (config : ZoneConfig) : (ofConfig config : Tenancy χ).Sound where
  accepted := by simp [ofConfig]
  ordered := .nil
  ascending := .nil
  published := rfl
  leaving := by simp [ofConfig, Zone.ofConfig]
  distinct := .nil
  returning := by simp [ofConfig, Zone.ofConfig]
  waiting := by simp [ofConfig, Zone.ofConfig]
  staying := by simp [ofConfig, Zone.ofConfig]

/-- After any calls on a new zone the books tell what the next call gives. -/
theorem serves_after_run [Character χ] (config : ZoneConfig) (ops : List (Operation χ))
    (hops : ∀ op ∈ ops, op.KeepsIdentity) : ((ofConfig config).run ops).Serves :=
  ((sound_ofConfig config).run hops).serves

/-- Calls by which a tenant leaves and another takes its identity before the next round. -/
def succession : List (Operation Unit) :=
  let agent := fun name => { entity := ⟨7⟩, character := (), behavior := .ofNode name .waiting }
  [.add (agent "old"), .update 10, .remove ⟨7⟩, .add (agent "new")]

/-- The round after it updates the successor alone. -/
theorem serves_after_run_succession :
    let s := (ofConfig {}).run succession
    (∀ op ∈ succession, op.KeepsIdentity) ∧ s.Serves ∧
      ((s.zone.update 10).zone.agents.map fun a => (a.behavior.name, a.tick)) = [("new", 1)] := by
  intro s
  have hops : ∀ op ∈ succession, op.KeepsIdentity := by simp [succession, Operation.KeepsIdentity]
  have serves : s.Serves := serves_after_run {} succession hops
  refine ⟨hops, serves, ?_⟩
  rw [(serves.update 10).2.1]
  decide +kernel

end Tenancy

end Behavior
