import Behavior.Proofs.Zone.Membership
/-!
# Calls while a round is in flight

A round takes the queued changes in one step and puts them in force in a later one. Between the two, what is
published is out of date for the identities that are on the move, and exactly the calls about these are
answered wrongly (`right_iff`); an agent added twice in a row is then lost (`readmission_loses`).
-/

namespace Behavior

open Zone

variable {χ : Type}

namespace Zone

variable {z z' : Zone χ} {p q : Pending χ} {a : Agent χ} {id : EntityId}

theorem settle_pending : ({ z with pending := q }.settle p).1 = { (z.settle p).1 with pending := q } := by
  cases h : p.isEmpty <;> simp [settle, h]

theorem add_eq_of_contains (hpending : z.pending = z'.pending)
    (hcontains : z.roster.contains a.entity = z'.roster.contains a.entity) :
    z.add a = (z'.add a).map fun _ => { z with pending := z.pending.arrive a } := by
  rw [add, add, hpending, hcontains]
  split <;> rfl

theorem remove_eq_of_contains (hpending : z.pending = z'.pending)
    (hcontains : z.roster.contains id = z'.roster.contains id) :
    z.remove id = ((z'.remove id).1, { z with pending := (z'.remove id).2.pending }) := by
  rw [remove, remove, hpending, hcontains]
  split
  · rfl
  · split
    · rw [← hpending]
    · split
      · rw [← hpending]
      · rfl

end Zone

/-- A zone with the changes that a round, if one is in flight, has taken and not yet put in force, and with the
books about it: the identities accepted by `add` and not by `remove` since, and the agents accepted for them. -/
structure InFlight (χ : Type) where
  zone : Zone χ
  carried : Option (Pending χ) := none
  ids : Finset EntityId := ∅
  ledger : List (Tenant χ) := []

namespace InFlight

/-- The calls, and the two steps of a round: it takes the queued changes, and it puts them in force. -/
inductive Action (χ : Type) where
  | add (a : Agent χ)
  | remove (id : EntityId)
  | take
  | settle

def Action.identity? : Action χ → Option EntityId
  | add a => some a.entity
  | remove id => some id
  | _ => none

def ofConfig (config : ZoneConfig) : InFlight χ := { zone := .ofConfig config }

variable (s : InFlight χ)

/-- The zone as it is once the round has put in force what it carries. -/
def landed : Zone χ :=
  match s.carried with
  | none => s.zone
  | some p => (s.zone.settle p).1

def tenancy : Tenancy χ := { zone := s.landed, ids := s.ids, ledger := s.ledger }

/-- Rounds go one at a time: one that is to begin waits for the one in flight. -/
def perform : Action χ → InFlight χ
  | .add a => match s.zone.add a with
    | .ok zone => { s with zone, ids := insert a.entity s.ids, ledger := enroll a s.ledger }
    | .error _ => s
  | .remove id =>
    if (s.zone.remove id).1 then
      { s with zone := (s.zone.remove id).2, ids := s.ids.erase id, ledger := strike id s.ledger }
    else s
  | .take => match s.carried with
    | none =>
      { s with
        zone := s.zone.takePending.2, carried := some s.zone.takePending.1
        ledger := present s.tenancy.settled }
    | some _ => s
  | .settle => match s.carried with
    | none => s
    | some p => { s with zone := (s.zone.settle p).1, carried := none }

def run (acts : List (Action χ)) : InFlight χ := acts.foldl perform s

/-- The round is about to publish the identity, or to publish that it is gone. -/
def Moves (id : EntityId) : Prop := ¬(id ∈ s.zone.members ↔ id ∈ s.landed.members)

/-- The call is answered as by the set of the accepted identities. -/
def Right : Action χ → Prop
  | .add a => (∃ z, s.zone.add a = .ok z) ↔ a.entity ∉ s.ids
  | .remove id => (s.zone.remove id).1 = true ↔ id ∈ s.ids
  | _ => True

/-- The accepted agents are those that the zone has once everything carried and queued is in force. -/
def LosesNobody : Prop := s.landed.applyPending.1.Houses s.tenancy.settled

/-! ## The invariant -/

/-- The books are right about the landed zone, and what is on the move is not queued again. -/
structure Sound : Prop where
  books : s.tenancy.Sound
  ascending : s.zone.members.Pairwise (· < ·)
  unqueued : ∀ id, s.Moves id → s.zone.pending.isArriving id = false ∧ s.zone.pending.isDeparting id = false

variable {s} {p q : Pending χ} {ids : Finset EntityId} {ledger : List (Tenant χ)} {id : EntityId}
variable {a : Agent χ} {act : Action χ}

theorem landed_of_none (h : s.carried = none) : s.landed = s.zone := by rw [landed, h]

theorem landed_of_some (h : s.carried = some p) : s.landed = (s.zone.settle p).1 := by rw [landed, h]

theorem landed_pending :
    landed { zone := { s.zone with pending := q }, carried := s.carried, ids, ledger } =
      { s.landed with pending := q } := by
  cases h : s.carried with
  | none => rw [landed_of_none rfl, landed_of_none h]
  | some p => rw [landed_of_some rfl, landed_of_some h, settle_pending]

theorem pending_landed : s.landed.pending = s.zone.pending := by
  cases h : s.carried with
  | none => rw [landed_of_none h]
  | some p =>
      rw [landed_of_some h, settle]
      split <;> rfl

namespace Sound

theorem accepted_of_moves (h : s.Sound) (hmoves : s.Moves id) : id ∈ s.ids ↔ id ∈ s.landed.members := by
  obtain ⟨harriving, hdeparting⟩ := h.unqueued id hmoves
  rw [← pending_landed] at harriving hdeparting
  have hcoming : ¬∃ a ∈ s.landed.pending.arrivals, a.entity = id := by simp [← isArriving_iff, harriving]
  have hstays : id ∉ s.landed.pending.departures := by simp [← isDeparting_iff, hdeparting]
  exact h.books.accepted_iff.trans ⟨fun hor => (hor.resolve_left hcoming).1, fun hm => .inr ⟨hm, hstays⟩⟩

/-! ## Answers -/

theorem contains_iff (h : s.Sound) : s.zone.roster.contains id = true ↔ id ∈ s.zone.members :=
  Roster.contains_iff h.ascending

theorem contains_eq (h : s.Sound) (hstill : ¬s.Moves id) :
    s.zone.roster.contains id = s.landed.roster.contains id :=
  Bool.eq_iff_iff.mpr (h.contains_iff.trans ((not_not.mp hstill).trans h.books.contains_iff.symm))

theorem add_eq (h : s.Sound) (hstill : ¬s.Moves a.entity) :
    s.zone.add a = (s.landed.add a).map fun _ => { s.zone with pending := s.zone.pending.arrive a } :=
  add_eq_of_contains pending_landed.symm (h.contains_eq hstill)

theorem remove_eq (h : s.Sound) (hstill : ¬s.Moves id) :
    s.zone.remove id =
      ((s.landed.remove id).1, { s.zone with pending := (s.landed.remove id).2.pending }) :=
  remove_eq_of_contains pending_landed.symm (h.contains_eq hstill)

theorem add_of_moves (h : s.Sound) (hmoves : s.Moves a.entity) :
    (∃ z, s.zone.add a = .ok z) ↔ a.entity ∉ s.zone.members := by
  obtain ⟨harriving, hdeparting⟩ := h.unqueued _ hmoves
  rw [← h.contains_iff, add, harriving, hdeparting]
  cases s.zone.roster.contains a.entity <;> simp

theorem remove_of_moves (h : s.Sound) (hmoves : s.Moves id) :
    (s.zone.remove id).1 = true ↔ id ∈ s.zone.members := by
  obtain ⟨harriving, hdeparting⟩ := h.unqueued _ hmoves
  rw [← h.contains_iff, remove, harriving, hdeparting]
  cases s.zone.roster.contains id <;> simp

/-- A call is answered rightly exactly if it is not about an identity on the move. -/
theorem right_iff (h : s.Sound) : s.Right act ↔ ∀ id ∈ act.identity?, ¬s.Moves id := by
  cases act with
  | add a =>
      simp only [Right, Action.identity?, Option.mem_some_iff, forall_eq']
      by_cases hmoves : s.Moves a.entity
      -- the answer goes by what is published, and that is out of date
      · rw [h.add_of_moves hmoves, h.accepted_of_moves hmoves, not_iff_not, Moves, not_not]
      · refine iff_of_true ?_ hmoves
        rw [h.add_eq hmoves]
        by_cases ha : a.entity ∈ s.ids
        · have hadd : s.landed.add a = .error _ := h.books.add_of_mem ha
          simp [hadd, ha, Except.map]
        · have hadd : s.landed.add a = .ok _ := h.books.add_of_not_mem ha
          simp [hadd, ha, Except.map]
  | remove id =>
      simp only [Right, Action.identity?, Option.mem_some_iff, forall_eq']
      by_cases hmoves : s.Moves id
      · rw [h.remove_of_moves hmoves, h.accepted_of_moves hmoves, Moves, not_not]
      · refine iff_of_true ?_ hmoves
        rw [h.remove_eq hmoves]
        by_cases hid : id ∈ s.ids
        · obtain ⟨q, -, hremove, -⟩ := h.books.remove_of_mem hid
          have hremove : s.landed.remove id = (true, _) := hremove
          simp [hremove, hid]
        · have hremove : s.landed.remove id = (false, _) := h.books.remove_of_not_mem hid
          simp [hremove, hid]
  | take => simp [Right, Action.identity?]
  | settle => simp [Right, Action.identity?]

/-! ## Every step, and every run -/

theorem queued (h : s.Sound) (hbooks : Tenancy.Sound { zone := { s.landed with pending := q }, ids, ledger })
    (hqueue : ∀ e, s.Moves e → q.isArriving e = false ∧ q.isDeparting e = false) :
    Sound { zone := { s.zone with pending := q }, carried := s.carried, ids, ledger } where
  books := by rwa [tenancy, landed_pending]
  ascending := h.ascending
  unqueued e hmoves := by
    rw [Moves, landed_pending] at hmoves
    exact hqueue e hmoves

theorem unqueued_arrive (h : s.Sound) (hstill : ¬s.Moves a.entity) (e : EntityId) (hmoves : s.Moves e) :
    (s.zone.pending.arrive a).isArriving e = false ∧ (s.zone.pending.arrive a).isDeparting e = false := by
  obtain ⟨harriving, hdeparting⟩ := h.unqueued e hmoves
  have hne : a.entity ≠ e := fun heq => hstill (heq ▸ hmoves)
  refine ⟨?_, hdeparting⟩
  rw [Bool.eq_false_iff, Ne, isArriving_iff] at harriving ⊢
  rintro ⟨b, hb, rfl⟩
  rcases List.mem_append.mp hb with hb | hb
  · exact harriving ⟨b, hb, rfl⟩
  · exact hne (congrArg _ (List.mem_singleton.mp hb)).symm

theorem unqueued_withdraw (h : s.Sound) (e : EntityId) (hmoves : s.Moves e) :
    (s.zone.pending.withdraw id).isArriving e = false ∧ (s.zone.pending.withdraw id).isDeparting e = false := by
  obtain ⟨harriving, hdeparting⟩ := h.unqueued e hmoves
  refine ⟨?_, hdeparting⟩
  rw [Bool.eq_false_iff, Ne, isArriving_iff] at harriving ⊢
  exact fun ⟨b, hb, heq⟩ => harriving ⟨b, List.mem_of_mem_eraseP hb, heq⟩

theorem unqueued_depart (h : s.Sound) (hstill : ¬s.Moves id) (e : EntityId) (hmoves : s.Moves e) :
    (s.zone.pending.depart id).isArriving e = false ∧ (s.zone.pending.depart id).isDeparting e = false := by
  obtain ⟨harriving, hdeparting⟩ := h.unqueued e hmoves
  have hne : e ≠ id := fun heq => hstill (heq ▸ hmoves)
  refine ⟨harriving, ?_⟩
  rw [Bool.eq_false_iff, Ne, isDeparting_iff] at hdeparting ⊢
  exact fun he => (mem_insertSorted.mp he).elim hne hdeparting

theorem taken (h : s.Sound) (hnone : s.carried = none) :
    Sound
      { zone := s.zone.takePending.2
        carried := some s.zone.takePending.1
        ids := s.ids
        ledger := present s.tenancy.settled } where
  books := by
    have hhouses := h.books.houses_settled
    rw [show s.tenancy.zone = s.zone from landed_of_none hnone] at hhouses
    exact h.books.renewed hhouses rfl
  ascending := h.ascending
  unqueued _ _ := ⟨rfl, rfl⟩

theorem put_in_force (h : s.Sound) (hsome : s.carried = some p) :
    Sound { zone := (s.zone.settle p).1, carried := none, ids := s.ids, ledger := s.ledger } := by
  rw [← landed_of_some hsome]
  exact
    { books := h.books
      ascending := by
        have hpublished : s.landed.members = s.landed.agents.map (·.entity) := h.books.published
        rw [hpublished, List.pairwise_map]
        exact h.books.ascending
      unqueued := fun _ hmoves => absurd Iff.rfl hmoves }

theorem perform (h : s.Sound) (hstill : ∀ id ∈ act.identity?, ¬s.Moves id) : (s.perform act).Sound := by
  cases act with
  | add a =>
      have hstill : ¬s.Moves a.entity := hstill _ rfl
      rw [InFlight.perform, h.add_eq hstill]
      by_cases ha : a.entity ∈ s.ids
      · have hadd : s.landed.add a = .error _ := h.books.add_of_mem ha
        rw [hadd]
        exact h
      · have hadd : s.landed.add a = .ok _ := h.books.add_of_not_mem ha
        rw [hadd]
        have hbooks := h.books.enrolled ha
        exact h.queued (pending_landed ▸ hbooks) (h.unqueued_arrive hstill)
  | remove id =>
      have hstill : ¬s.Moves id := hstill _ rfl
      rw [InFlight.perform, h.remove_eq hstill]
      by_cases hid : id ∈ s.ids
      · obtain ⟨q, hq, hremove, hbooks⟩ := h.books.remove_of_mem hid
        have hremove : s.landed.remove id = (true, _) := hremove
        rw [hremove, if_pos rfl]
        refine h.queued hbooks ?_
        have hpending : s.tenancy.zone.pending = s.zone.pending := pending_landed
        rcases hq with rfl | rfl
        · rw [hpending]
          exact h.unqueued_withdraw
        · rw [hpending]
          exact h.unqueued_depart hstill
      · have hremove : s.landed.remove id = (false, _) := h.books.remove_of_not_mem hid
        rw [hremove]
        exact h
  | take =>
      rw [InFlight.perform]
      split
      case h_1 hnone => exact h.taken hnone
      case h_2 => exact h
  | settle =>
      rw [InFlight.perform]
      split
      case h_1 => exact h
      case h_2 p hsome => exact h.put_in_force hsome

theorem sound_ofConfig (config : ZoneConfig) : (ofConfig config : InFlight χ).Sound where
  books := Tenancy.sound_ofConfig config
  ascending := .nil
  unqueued _ hmoves := absurd Iff.rfl hmoves

theorem run {config : ZoneConfig} {acts past : List (Action χ)}
    (hstill : ∀ past act, past ++ [act] <+: acts → ((ofConfig config).run past).Sound →
      ∀ id ∈ act.identity?, ¬((ofConfig config).run past).Moves id)
    (hpast : past <+: acts) : ((ofConfig config).run past).Sound := by
  induction past using List.reverseRecOn with
  | nil => exact sound_ofConfig config
  | append_singleton past act ih =>
      have hsound := ih ((List.prefix_append past [act]).trans hpast)
      rw [InFlight.run, List.foldl_append]
      exact hsound.perform (hstill past act hpast hsound)

theorem losesNobody (h : s.Sound) : s.LosesNobody := h.books.houses_settled

end Sound

/-- A round that takes the queue moves who only arrives and who only leaves. -/
theorem Sound.moves_take (h : s.Sound) (hnone : s.carried = none) :
    (s.perform .take).Moves id ↔ s.zone.pending.isArriving id ≠ s.zone.pending.isDeparting id := by
  have hbooks := h.books
  have hhouses := hbooks.houses_settled
  rw [tenancy, landed_of_none hnone] at hbooks hhouses
  have hlanded : (s.perform .take).landed.members = s.zone.applyPending.1.members := by
    rw [InFlight.perform, hnone]
    rfl
  have hmembers : (s.perform .take).zone.members = s.zone.members := by
    rw [InFlight.perform, hnone]
    rfl
  have haccepted : id ∈ s.zone.applyPending.1.members ↔
      (∃ a ∈ s.zone.pending.arrivals, a.entity = id) ∨
        id ∈ s.zone.members ∧ id ∉ s.zone.pending.departures := by
    rw [hhouses.published, ← hbooks.mem_ids]
    exact hbooks.accepted_iff
  have hleaving : id ∈ s.zone.pending.departures → id ∈ s.zone.members := hbooks.leaving id
  have hreturning : (∃ a ∈ s.zone.pending.arrivals, a.entity = id) → id ∈ s.zone.members →
      id ∈ s.zone.pending.departures := by
    rintro ⟨a, ha, rfl⟩
    exact hbooks.returning a ha
  rw [Moves, hlanded, hmembers, haccepted, Ne, Bool.eq_iff_iff, isArriving_iff, isDeparting_iff, not_iff_not]
  by_cases hleaves : id ∈ s.zone.pending.departures
  · simp [hleaves, hleaving hleaves]
  · by_cases hmember : id ∈ s.zone.members
    · have hcoming := mt (hreturning · hmember) hleaves
      exact iff_of_true (iff_of_true hmember (.inr ⟨hmember, hleaves⟩)) (iff_of_false hcoming hleaves)
    · simp [hleaves, hmember]

/-- All calls of a history are answered as by the set of the accepted identities, and no agent is lost, exactly
if none of them is about an identity that is on the move then. -/
theorem right_iff_still (config : ZoneConfig) (acts : List (Action χ)) :
    (∀ past act, past ++ [act] <+: acts →
        ((ofConfig config).run past).Right act ∧ ((ofConfig config).run (past ++ [act])).LosesNobody) ↔
      ∀ past act, past ++ [act] <+: acts → ∀ id ∈ act.identity?, ¬((ofConfig config).run past).Moves id := by
  constructor
  · intro hright past act hpast
    have hsound := Sound.run (fun past act hpast hsound => hsound.right_iff.mp (hright past act hpast).1)
      ((List.prefix_append past [act]).trans hpast)
    exact hsound.right_iff.mp (hright past act hpast).1
  · intro hstill past act hpast
    have hsound {past : List (Action χ)} : past <+: acts → ((ofConfig config).run past).Sound :=
      Sound.run fun past act hpast _ => hstill past act hpast
    exact ⟨(hsound ((List.prefix_append past [act]).trans hpast)).right_iff.mpr (hstill past act hpast),
      (hsound hpast).losesNobody⟩

def newcomer (name : String) : Agent Unit :=
  { entity := ⟨7⟩, character := (), behavior := .ofNode name .waiting }

def readmission : List (Action Unit) :=
  [.add (newcomer "first"), .take, .add (newcomer "second"), .settle, .take, .settle]

/-- While a round carries the first agent, its identity cannot be removed but can be added again; in the end
the second agent is there without the first having been removed. -/
theorem readmission_loses :
    let s := (ofConfig {}).run (readmission.take 2)
    ⟨7⟩ ∈ s.ids ∧ (s.zone.remove ⟨7⟩).1 = false ∧ (∃ z, s.zone.add (newcomer "second") = .ok z) ∧
      ¬s.Right (.remove ⟨7⟩) ∧ ¬s.Right (.add (newcomer "second")) ∧
        (((ofConfig {}).run readmission).zone.agents.map (·.behavior.name)) = ["second"] := by
  intro s
  have hids : ⟨7⟩ ∈ s.ids := by decide +kernel
  have hremove : (s.zone.remove ⟨7⟩).1 = false := by decide +kernel
  have hadd : ∃ z, s.zone.add (newcomer "second") = .ok z := ⟨_, rfl⟩
  refine ⟨hids, hremove, hadd, fun hright => ?_, fun hright => hright.mp hadd hids, by decide +kernel⟩
  rw [Right, hremove] at hright
  exact absurd (hright.mpr hids) (by decide)

end InFlight

end Behavior
