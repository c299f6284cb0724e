import Behavior.Proofs.Zone.Membership
import Behavior.Proofs.Zone.Rounds
/-!
# Published snapshots

While a zone is debugging, every round puts a snapshot of each agent on display. What is on display goes when the agent
goes, and all of it goes when debugging is switched off. Main statement: `Zone.snapshots_after_run`.
-/

namespace Behavior

variable {χ : Type}

namespace Zone

variable {z : Zone χ} {id : EntityId} {p : AgentSnapshot}

/-! ## The table -/

theorem get?_foldl_erase {ids : List EntityId} {t : Table EntityId AgentSnapshot} :
    (ids.foldl (·.erase ·) t).get? id = if id ∈ ids then none else t.get? id := by
  induction ids generalizing t with
  | nil => rfl
  | cons i is ih =>
      rw [List.foldl_cons, ih, Table.get?_erase]
      by_cases h : i = id
      · simp [h]
      · simp [h, Ne.symm h]

theorem get?_foldl_insert {agents : List (Agent χ)} (h : Ascending agents) {t : Table EntityId AgentSnapshot} :
    (agents.foldl (fun t a => t.insert a.entity a.snapshot) t).get? id =
      ((agents.find? (·.entity == id)).map Agent.snapshot).or (t.get? id) := by
  induction agents generalizing t with
  | nil => rfl
  | cons a as ih =>
      obtain ⟨ha, has⟩ := List.pairwise_cons.mp h
      rw [List.foldl_cons, ih has, Table.get?_insert]
      by_cases heq : a.entity = id
      · subst heq
        have hnone : as.find? (·.entity == a.entity) = none := by
          rw [List.find?_eq_none]
          exact fun b hb => by simp [(EntityId.ne_of_lt (ha b hb)).symm]
        simp [hnone]
      · rw [if_neg heq, List.find?_cons_of_neg (by simpa using heq)]

theorem get?_applyPending :
    z.applyPending.1.snapshots.get? id = if id ∈ z.pending.departures then none else z.snapshots.get? id := by
  cases h : z.pending.isEmpty with
  | true =>
      have hd : z.pending.departures = [] := by simp_all [Pending.isEmpty]
      rw [applyPending_of_isEmpty h, hd]
      rfl
  | false =>
      rw [applyPending_of_not_isEmpty h]
      exact get?_foldl_erase

theorem debugging_applyPending : z.applyPending.1.debugging = z.debugging := by
  cases h : z.pending.isEmpty with
  | true => rw [applyPending_of_isEmpty h]
  | false => rw [applyPending_of_not_isEmpty h]

theorem debugging_publish : z.publish.debugging = z.debugging := by
  cases h : z.debugging <;> simp [publish, h]

theorem get?_publish (h : Ascending z.agents) (hdebugging : z.debugging = true) :
    z.publish.snapshots.get? id = ((z.agents.find? (·.entity == id)).map Agent.snapshot).or (z.snapshots.get? id) := by
  rw [publish, if_pos hdebugging]
  exact get?_foldl_insert h

theorem publish_of_not_debugging (hdebugging : z.debugging = false) : z.publish = z := by
  rw [publish, if_neg (by simp [hdebugging])]

/-! ## What is on display -/

/-- Each snapshot is displayed under its own identity, which is that of a member, and only while debugging. -/
structure Posted (z : Zone χ) : Prop where
  owned : ∀ id p, z.snapshots.get? id = some p → p.entity = id
  member : ∀ id p, z.snapshots.get? id = some p → id ∈ z.members
  off : z.debugging = false → ∀ id, z.snapshots.get? id = none

theorem posted_of_empty {z : Zone χ} (hempty : ∀ id, z.snapshots.get? id = none) : z.Posted where
  owned id p hget := by cases (hempty id).symm.trans hget
  member id p hget := by cases (hempty id).symm.trans hget
  off _ := hempty

/-! ## What a call can do -/

/-- The call puts the queued changes in force. -/
def Operation.Applies : Operation χ → Prop
  | .update _ | .execute _ _ | .forEach _ _ => True
  | .add _ | .remove _ | .setDebugging _ => False

/-- The call puts the departure of the identity in force. -/
def Evicts (z : Zone χ) (id : EntityId) (op : Operation χ) : Prop := op.Applies ∧ id ∈ z.pending.departures

variable [Character χ] {delta : UInt64}

theorem exists_update (z : Zone χ) (delta : UInt64) :
    ∃ agents, (z.update delta).zone = ({ z.applyPending.1 with agents } : Zone χ).publish := ⟨_, rfl⟩

/-- A call queues something, or puts what is queued in force and changes agents, which a round then publishes, or it
switches debugging. -/
theorem perform_cases (z : Zone χ) (op : Operation χ) :
    (¬op.Applies ∧ ∃ pending, z.perform op = { z with pending }) ∨
    (∃ agents, z.perform op = { z.applyPending.1 with agents }) ∨
    (∃ delta, op = .update delta ∧ ∃ agents, z.perform op = ({ z.applyPending.1 with agents } : Zone χ).publish) ∨
    ∃ on, op = .setDebugging on := by
  cases op with
  | add a =>
      refine .inl ⟨id, ?_⟩
      rw [perform, add]
      split
      · next h => split at h <;> cases h; exact ⟨_, rfl⟩
      · exact ⟨_, rfl⟩
  | remove id =>
      refine .inl ⟨fun h => h, ?_⟩
      rw [perform, remove]
      repeat' split
      all_goals exact ⟨_, rfl⟩
  | update delta => exact .inr (.inr (.inl ⟨delta, rfl, exists_update z delta⟩))
  | execute id visit =>
      refine .inr (.inl ?_)
      simp only [perform, execute]
      repeat' split
      all_goals exact ⟨_, rfl⟩
  | forEach kept visit => exact .inr (.inl ⟨_, rfl⟩)
  | setDebugging on => exact .inr (.inr (.inr ⟨on, rfl⟩))

end Zone

open Zone

namespace Tenancy.Sound

variable {s : Tenancy χ} {id : EntityId} {p : AgentSnapshot}

/-- A member that does not leave is a member afterwards. -/
theorem mem_members_applyPending (h : s.Sound) (hid : id ∈ s.zone.members) (hstays : id ∉ s.zone.pending.departures) :
    id ∈ s.zone.applyPending.1.members := by
  rw [h.houses_settled.published]
  exact h.mem_ids.mp (h.accepted_iff.mpr (.inr ⟨hid, hstays⟩))

theorem posted_applyPending (h : s.Sound) (hp : s.zone.Posted) : s.zone.applyPending.1.Posted where
  owned id p hget := by
    rw [get?_applyPending] at hget
    split at hget
    · cases hget
    · exact hp.owned id p hget
  member id p hget := by
    rw [get?_applyPending] at hget
    split at hget
    · cases hget
    · next hstays => exact h.mem_members_applyPending (hp.member id p hget) hstays
  off hoff id := by
    rw [debugging_applyPending] at hoff
    rw [get?_applyPending, hp.off hoff, ite_self]

variable [Character χ] {delta : UInt64}

theorem sound_update (h : s.Sound) (delta : UInt64) : (s.perform (.update delta)).Sound := h.perform trivial

/-- A round while debugging leaves a snapshot of every agent on display, and no other. -/
theorem get?_update (h : s.Sound) (hp : s.zone.Posted) (hdebugging : s.zone.debugging = true) :
    (s.zone.update delta).zone.snapshots.get? id =
      ((s.zone.update delta).zone.agents.find? (·.entity == id)).map Agent.snapshot := by
  have hnext := h.sound_update delta
  obtain ⟨agents, hz⟩ := exists_update s.zone delta
  have hascending : Ascending (s.zone.update delta).zone.agents := hnext.ascending
  have hpublished : (s.zone.update delta).zone.members = (s.zone.update delta).zone.agents.map (·.entity) :=
    hnext.published
  rw [hz, agents_publish] at hascending
  rw [hz, members_publish, agents_publish] at hpublished
  rw [hz, get?_publish hascending (debugging_applyPending.trans hdebugging), agents_publish]
  cases hget : s.zone.applyPending.1.snapshots.get? id with
  | none => rw [Option.or_none]
  | some p =>
      have hmem := (h.posted_applyPending hp).member id p hget
      rw [hpublished] at hmem
      obtain ⟨a, ha, rfl⟩ := List.mem_map.mp hmem
      rw [hascending.find?_eq ha]
      rfl

theorem debugging_update {z : Zone χ} : (z.update delta).zone.debugging = z.debugging := by
  obtain ⟨agents, hz⟩ := exists_update z delta
  rw [hz, debugging_publish]
  exact debugging_applyPending

/-- What is on display after a round while debugging is the snapshot of an agent in the zone. -/
theorem exists_agent_of_get?_update (h : s.Sound) (hp : s.zone.Posted) (hdebugging : s.zone.debugging = true)
    (hget : (s.zone.update delta).zone.snapshots.get? id = some p) :
    ∃ a ∈ (s.zone.update delta).zone.agents, a.entity = id ∧ a.snapshot = p := by
  rw [h.get?_update hp hdebugging, Option.map_eq_some_iff] at hget
  obtain ⟨a, ha, hsnapshot⟩ := hget
  exact ⟨a, List.mem_of_find?_eq_some ha, by simpa using List.find?_some ha, hsnapshot⟩

theorem posted_update (h : s.Sound) (hp : s.zone.Posted) : (s.zone.update delta).zone.Posted := by
  have hnext := h.sound_update delta
  cases hd : s.zone.debugging with
  | true =>
      refine ⟨fun id p hget => ?_, fun id p hget => ?_, fun hoff => ?_⟩
      · obtain ⟨a, -, rfl, rfl⟩ := h.exists_agent_of_get?_update hp hd hget
        rfl
      · obtain ⟨a, ha, rfl, -⟩ := h.exists_agent_of_get?_update hp hd hget
        exact hnext.published ▸ List.mem_map_of_mem ha
      · rw [debugging_update, hd] at hoff
        cases hoff
  | false =>
      have hp := h.posted_applyPending hp
      obtain ⟨agents, hz⟩ := exists_update s.zone delta
      rw [hz, publish_of_not_debugging (by exact debugging_applyPending.trans hd)]
      exact ⟨hp.owned, hp.member, hp.off⟩

theorem posted_perform (h : s.Sound) (hp : s.zone.Posted) (op : Operation χ) : (s.zone.perform op).Posted := by
  rcases perform_cases s.zone op with ⟨-, pending, hz⟩ | ⟨agents, hz⟩ | ⟨delta, rfl, -⟩ | ⟨on, rfl⟩
  · rw [hz]
    exact ⟨hp.owned, hp.member, hp.off⟩
  · have hp := h.posted_applyPending hp
    rw [hz]
    exact ⟨hp.owned, hp.member, hp.off⟩
  · exact h.posted_update hp
  · cases on with
    | true => exact ⟨hp.owned, hp.member, fun hoff => by cases hoff⟩
    | false => exact posted_of_empty fun id => Table.get?_empty

/-- Only a round while debugging displays something new; what else is on display was so before, and no call puts the
departure of its agent in force. -/
theorem get?_perform (h : s.Sound) (hp : s.zone.Posted) {op : Operation χ}
    (hget : (s.zone.perform op).snapshots.get? id = some p) :
    (s.zone.snapshots.get? id = some p ∧ ¬s.zone.Evicts id op) ∨
      ∃ delta, op = .update delta ∧ s.zone.debugging = true ∧ ∃ a ∈ (s.zone.perform op).agents, a.snapshot = p := by
  have hkept (hget : s.zone.applyPending.1.snapshots.get? id = some p) :
      s.zone.snapshots.get? id = some p ∧ ¬s.zone.Evicts id op := by
    rw [get?_applyPending] at hget
    split at hget
    · cases hget
    · next hstays => exact ⟨hget, fun hevicts => hstays hevicts.2⟩
  rcases perform_cases s.zone op with ⟨hop, pending, hz⟩ | ⟨agents, hz⟩ | ⟨delta, rfl, agents, hz⟩ | ⟨on, rfl⟩
  · rw [hz] at hget
    exact .inl ⟨hget, fun hevicts => hop hevicts.1⟩
  · rw [hz] at hget
    exact .inl (hkept hget)
  · cases hd : s.zone.debugging with
    | true =>
        obtain ⟨a, ha, -, hsnapshot⟩ := h.exists_agent_of_get?_update hp hd hget
        exact .inr ⟨delta, rfl, rfl, a, ha, hsnapshot⟩
    | false =>
        rw [hz, publish_of_not_debugging (by exact debugging_applyPending.trans hd)] at hget
        exact .inl (hkept hget)
  · refine .inl ⟨?_, fun hevicts => hevicts.1⟩
    cases on with
    | true => exact hget
    | false => cases (Table.get?_empty (k := id)).symm.trans hget

end Tenancy.Sound

/-! ## The list of snapshots -/

namespace Zone.Posted

variable {z : Zone χ} {p : AgentSnapshot}

theorem mem_snapshotList (hp : z.Posted) : p ∈ z.snapshotList ↔ z.snapshots.get? p.entity = some p := by
  simp only [snapshotList, List.mem_map, Prod.exists, Table.mem_entries]
  constructor
  · rintro ⟨id, q, hget, rfl⟩
    rwa [hp.owned id q hget]
  · exact fun hget => ⟨p.entity, p, hget, rfl⟩

theorem pairwise_snapshotList (hp : z.Posted) : z.snapshotList.Pairwise fun p q => p.entity < q.entity := by
  rw [snapshotList, List.pairwise_map]
  refine Table.pairwise_entries.imp_of_mem fun {x y} hx hy hlt => ?_
  rw [hp.owned x.1 x.2 (Table.mem_entries.mp hx), hp.owned y.1 y.2 (Table.mem_entries.mp hy)]
  exact EntityId.compare_eq_lt.mp hlt

theorem snapshotList_of_off (hp : z.Posted) (hoff : z.debugging = false) : z.snapshotList = [] := by
  refine List.eq_nil_iff_forall_not_mem.mpr fun p hmem => ?_
  rw [hp.mem_snapshotList, hp.off hoff] at hmem
  cases hmem

end Zone.Posted

namespace Tenancy.Sound

variable [Character χ] {s : Tenancy χ} {delta : UInt64}

theorem snapshotList_update (h : s.Sound) (hp : s.zone.Posted) (hdebugging : s.zone.debugging = true) :
    (s.zone.update delta).zone.snapshotList = (s.zone.update delta).zone.agents.map Agent.snapshot := by
  have hnext : Ascending (s.zone.update delta).zone.agents := (h.sound_update delta).ascending
  have hposted : (s.zone.update delta).zone.Posted := h.posted_update hp
  refine eq_of_pairwise_lt hposted.pairwise_snapshotList (List.pairwise_map.mpr hnext) fun p => ?_
  rw [hposted.mem_snapshotList, List.mem_map]
  constructor
  · intro hget
    obtain ⟨a, ha, -, hsnapshot⟩ := h.exists_agent_of_get?_update hp hdebugging hget
    exact ⟨a, ha, hsnapshot⟩
  · rintro ⟨a, ha, rfl⟩
    rw [h.get?_update hp hdebugging, show a.snapshot.entity = a.entity from rfl, hnext.find?_eq ha]
    rfl

end Tenancy.Sound

/-! ## Histories -/

theorem Tenancy.zone_run [Character χ] {s : Tenancy χ} {ops : List (Operation χ)} :
    (s.run ops).zone = s.zone.run ops := by
  induction ops generalizing s with
  | nil => rfl
  | cons op ops ih => exact ih (s := s.perform op)

namespace Zone

variable [Character χ] {z : Zone χ} {ops ops' : List (Operation χ)} {op : Operation χ} {p : AgentSnapshot}

theorem run_append : z.run (ops ++ ops') = (z.run ops).run ops' := List.foldl_append

/-- None of the calls takes away the agent of the identity. -/
def Retains (z : Zone χ) (id : EntityId) (ops : List (Operation χ)) : Prop :=
  ∀ past op, past ++ [op] <+: ops → ¬(z.run past).Evicts id op

/-- Among the calls there is a round, while debugging, that took the snapshot of an agent which no call after it has
taken away. -/
def Taken (z : Zone χ) (ops : List (Operation χ)) (p : AgentSnapshot) : Prop :=
  ∃ before delta after, ops = before ++ .update delta :: after ∧ (z.run before).debugging = true ∧
    (∃ a ∈ ((z.run before).update delta).zone.agents, a.snapshot = p) ∧
    ((z.run before).update delta).zone.Retains p.entity after

theorem Taken.append (h : z.Taken ops p) (hop : ¬(z.run ops).Evicts p.entity op) : z.Taken (ops ++ [op]) p := by
  obtain ⟨before, delta, after, rfl, hdebugging, hagent, hretains⟩ := h
  refine ⟨before, delta, after ++ [op], by simp, hdebugging, hagent, fun past op' hpast => ?_⟩
  rcases List.prefix_concat_iff.mp hpast with heq | hpast
  · obtain ⟨rfl, heq⟩ := List.append_inj' heq rfl
    obtain rfl : op' = op := by simpa using heq
    rwa [run_append] at hop
  · exact hretains past op' hpast

theorem exists_sound_run (config : ZoneConfig) (hops : ∀ op ∈ ops, op.KeepsIdentity) :
    ∃ s : Tenancy χ, s.Sound ∧ s.zone = (Zone.ofConfig config).run ops :=
  ⟨_, (Tenancy.sound_ofConfig config).run hops, Tenancy.zone_run⟩

theorem posted_run (config : ZoneConfig) (hops : ∀ op ∈ ops, op.KeepsIdentity) :
    ((Zone.ofConfig config).run ops).Posted := by
  induction ops using List.reverseRecOn with
  | nil => exact posted_of_empty fun id => Table.get?_empty
  | append_singleton ops op ih =>
      have hops : ∀ op ∈ ops, op.KeepsIdentity := fun op hop => hops op (List.mem_append_left _ hop)
      have hposted := ih hops
      obtain ⟨s, hs, hzone⟩ := exists_sound_run config hops
      rw [run_append, ← hzone]
      exact hs.posted_perform (hzone ▸ hposted) op

/-- What is on display was taken by a round from an agent that has not been taken away since. -/
theorem taken_of_get? (config : ZoneConfig) (hops : ∀ op ∈ ops, op.KeepsIdentity)
    (hget : ((Zone.ofConfig config).run ops).snapshots.get? p.entity = some p) : (Zone.ofConfig config).Taken ops p := by
  induction ops using List.reverseRecOn with
  | nil => cases Table.get?_empty.symm.trans hget
  | append_singleton ops op ih =>
      have hops : ∀ op ∈ ops, op.KeepsIdentity := fun op hop => hops op (List.mem_append_left _ hop)
      have hposted := posted_run config hops
      obtain ⟨s, hs, hzone⟩ := exists_sound_run config hops
      rw [← hzone] at hposted
      rw [run_append, ← hzone] at hget
      rcases hs.get?_perform hposted hget with ⟨hget, hretained⟩ | ⟨delta, rfl, hdebugging, hagent⟩
      · rw [hzone] at hget hretained
        exact (ih hops hget).append hretained
      · rw [hzone] at hdebugging hagent
        exact ⟨ops, delta, [], rfl, hdebugging, hagent, fun past op hpast => by simp at hpast⟩

/-- After any calls on a new zone: the snapshots ascend strictly by identity and are of members; there are none unless
the zone is debugging; if it is, a round makes them those of all members, in order; and each that is shown was taken by
a round from an agent that no later call has taken away, so that the successor to an identity never shows what its
predecessor left. -/
theorem snapshots_after_run (config : ZoneConfig) (ops : List (Operation χ)) (hops : ∀ op ∈ ops, op.KeepsIdentity) :
    let z := (Zone.ofConfig config).run ops
    z.snapshotList.Pairwise (fun p q => p.entity < q.entity) ∧
    (∀ p ∈ z.snapshotList, p.entity ∈ z.members) ∧
    (z.debugging = false → z.snapshotList = []) ∧
    (z.debugging = true → ∀ delta,
      let after := (z.update delta).zone
      after.snapshotList = after.agents.map Agent.snapshot ∧ after.members = after.agents.map (·.entity) ∧
        after.members.Pairwise (· < ·)) ∧
    (∀ p ∈ z.snapshotList, (Zone.ofConfig config).Taken ops p) ∧
    ∀ id p, z.snapshot? id = some p ↔ p ∈ z.snapshotList ∧ p.entity = id := by
  intro z
  have hposted : z.Posted := posted_run config hops
  refine ⟨hposted.pairwise_snapshotList, fun p hp => ?_, hposted.snapshotList_of_off, fun hdebugging delta => ?_,
    fun p hp => taken_of_get? config hops (hposted.mem_snapshotList.mp hp), fun id p => ?_⟩
  · exact hposted.member p.entity p (hposted.mem_snapshotList.mp hp)
  · obtain ⟨s, hs, hzone⟩ := exists_sound_run config hops
    rw [show z = s.zone from hzone.symm] at hposted hdebugging ⊢
    have hnext := hs.sound_update delta
    have hascending : ((s.zone.update delta).zone.agents.map (·.entity)).Pairwise (· < ·) :=
      List.pairwise_map.mpr hnext.ascending
    have hpublished : (s.zone.update delta).zone.members = (s.zone.update delta).zone.agents.map (·.entity) :=
      hnext.published
    exact ⟨hs.snapshotList_update hposted hdebugging, hpublished, hpublished ▸ hascending⟩
  · rw [hposted.mem_snapshotList]
    constructor
    · intro hget
      obtain rfl := hposted.owned id p hget
      exact ⟨hget, rfl⟩
    · rintro ⟨hget, rfl⟩
      exact hget

/-- Calls by which an agent that two rounds have shown leaves, and another takes its identity. -/
def handover : List (Operation Unit) :=
  let agent := { entity := ⟨7⟩, character := (), behavior := .ofNode "" .waiting }
  [.setDebugging true, .add agent, .update 10, .update 10, .remove ⟨7⟩, .add agent]

/-- Until the next round the predecessor is shown, and from then on the successor. -/
theorem snapshots_after_run_handover :
    let z := (Zone.ofConfig {}).run handover
    (∀ op ∈ handover, op.KeepsIdentity) ∧ z.debugging = true ∧ z.snapshotList.map (·.tick) = [2] ∧
      (z.update 10).zone.snapshotList.map (·.tick) = [1] := by
  intro z
  have hops : ∀ op ∈ handover, op.KeepsIdentity := by simp [handover, Operation.KeepsIdentity]
  have hdebugging : z.debugging = true := by decide +kernel
  obtain ⟨-, -, -, round, -, -⟩ := snapshots_after_run {} handover hops
  refine ⟨hops, hdebugging, by decide +kernel, ?_⟩
  rw [(round hdebugging 10).1]
  decide +kernel

end Zone

end Behavior
