import Behavior.Proofs.Scheduler.Tokens
import Behavior.Proofs.Zone.Placing
/-!
# Stopping

`start` puts a registration in the place of the driver, and `stop` takes the driver away, then halts it, and then
waits for the round in flight. A call of `stop` that no other one is under way with is a barrier: when it returns,
no round of an earlier registration is in flight, and none will ever begin (`barred_after_stop`). A call that
finds no driver because another one has just taken it is not: it returns at once (`overlap_breaks`).
-/

namespace Behavior

variable {χ : Type}

/-- Who runs a round. -/
inductive Conductor where
  | caller
  /-- The callback of a registration. -/
  | job (job : Nat)
  deriving DecidableEq

/-- How far a call of `stop` has come. -/
inductive Stop.Stage where
  | found
  | cancelled
  | halted
  | returned
  deriving DecidableEq

/-- A call of `stop`, with the driver it found. -/
structure Stop where
  found : Option Nat
  stage : Stop.Stage
  /-- The registrations whose `start` had returned when the call began. -/
  owed : List Nat
  /-- The registrations that other calls had found then and had not returned with. -/
  rivals : List Nat

/-- The call is about to halt the registration. -/
def Stop.Holds (c : Stop) (job : Nat) : Prop :=
  c.found = some job ∧ (c.stage = .found ∨ c.stage = .cancelled)

/-- A zone with what the threads about it are up to. -/
structure Stopping (χ : Type) where
  zone : Zone χ
  next : Nat := 0
  cancelled : List Nat := []
  /-- Registrations that are submitted, with a `start` that has not returned. -/
  starting : List Nat := []
  /-- Registrations whose `start` has returned. -/
  started : List Nat := []
  /-- Callbacks that were let through and have not got the round lock yet, by registration. -/
  callbacks : List Nat := []
  /-- Who holds the round lock. -/
  round : Option Conductor := none
  stops : List Stop := []

namespace Stopping

/-- What threads do between two points of synchronisation. -/
inductive Action where
  /-- A `start` submits its job. -/
  | submit
  /-- A `start` makes its registration the driver, halts the previous one, and returns. -/
  | engage (job : Nat)
  /-- A `stop` takes the driver away; if there is none, it returns. -/
  | find
  | cancel (call : Nat)
  | halt (call : Nat)
  /-- A `stop` gets the round lock and returns. -/
  | wait (call : Nat)
  /-- A scheduler lets a callback through, whose job was not cancelled. It would not let another one of the same job
  through before that one has returned; nothing here depends on it. -/
  | arrive (job : Nat)
  /-- A callback gets the round lock, and begins a round if its registration was not halted. -/
  | enter (job : Nat)
  /-- A round that is not driven begins. -/
  | update (delta : UInt64)
  /-- The round in flight ends. -/
  | leave

def ofConfig (config : ZoneConfig) : Stopping χ := { zone := .ofConfig config }

variable (s : Stopping χ)

/-- The registrations that calls of `stop` have found and not returned with. -/
def inHand : List Nat := (s.stops.filter fun c => c.stage != .returned).filterMap (·.found)

def moveOn (call : Nat) (c : Stop) (stage : Stop.Stage) : List Stop := s.stops.set call { c with stage }

def step [Character χ] : Action → Option (Stopping χ)
  | .submit =>
    some { s with
      zone := s.zone.enlist s.next, next := s.next + 1, starting := s.starting ++ [s.next] }
  | .engage job =>
    if job ∈ s.starting then
      let (previous, zone) := s.zone.engage job
      some { s with
        zone, cancelled := previous.toList ++ s.cancelled
        starting := s.starting.erase job, started := job :: s.started }
    else none
  | .find =>
    let (found, zone) := s.zone.disengage
    let stage := if found.isSome then .found else .returned
    some { s with zone, stops := s.stops ++ [{ found, stage, owed := s.started, rivals := s.inHand }] }
  | .cancel call => match s.stops[call]? with
    | some c => match c.stage, c.found with
      | .found, some job =>
        some { s with cancelled := job :: s.cancelled, stops := s.moveOn call c .cancelled }
      | _, _ => none
    | none => none
  | .halt call => match s.stops[call]? with
    | some c => match c.stage, c.found with
      | .cancelled, some job => some { s with zone := s.zone.halt job, stops := s.moveOn call c .halted }
      | _, _ => none
    | none => none
  | .wait call => match s.stops[call]? with
    | some c =>
      if c.stage = .halted ∧ s.round = none then some { s with stops := s.moveOn call c .returned } else none
    | none => none
  | .arrive job =>
    if job < s.next ∧ job ∉ s.cancelled then some { s with callbacks := s.callbacks ++ [job] } else none
  | .enter job =>
    if job ∈ s.callbacks ∧ s.round = none then
      match s.zone.drivenRound job with
      | some r => some { s with zone := r.zone, callbacks := s.callbacks.erase job, round := some (.job job) }
      | none => some { s with callbacks := s.callbacks.erase job }
    else none
  | .update delta =>
    if s.round = none then some { s with zone := (s.zone.update delta).zone, round := some .caller } else none
  | .leave => if s.round = none then none else some { s with round := none }

def run [Character χ] : List Action → Stopping χ → Option (Stopping χ)
  | [], s => some s
  | a :: as, s => (s.step a).bind (run as)

/-- The registrations of which a step begins a round. -/
def begun : Action → List Nat
  | .enter job => if s.zone.live.contains job then [job] else []
  | _ => []

/-- The registrations of which rounds begin along a run. -/
def begunAlong [Character χ] : List Action → Stopping χ → List Nat
  | [], _ => []
  | a :: as, s => match s.step a with
    | some s' => s.begun a ++ begunAlong as s'
    | none => []

/-! ## The invariant -/

/-- What a call has reached for a registration. -/
def Reaches (c : Stop) (job : Nat) : Prop :=
  match c.stage with
  | .found => job ∈ s.zone.live → c.found = some job
  | .cancelled => job ∈ s.zone.live → c.found = some job
  | .halted => job ∉ s.zone.live
  | .returned => (c.found = none → c.rivals = []) → job ∉ s.zone.live ∧ s.round ≠ some (.job job)

structure Answers (c : Stop) : Prop where
  owed : ∀ job ∈ c.owed, job < s.next
  found : c.found = none → c.stage = .returned
  reaches : ∀ job ∈ c.owed, job ∉ c.rivals → s.Reaches c job

/-- A live registration is the driver or about to be halted, and a round in flight will be waited for. -/
structure Sound : Prop where
  starting : ∀ job ∈ s.starting, job < s.next
  started : ∀ job ∈ s.started, job < s.next
  held : ∀ job ∈ s.started, job ∈ s.zone.live → s.zone.driver = some job ∨ ∃ c ∈ s.stops, c.Holds job
  flight : ∀ job ∈ s.started, s.round = some (.job job) →
    s.zone.driver ≠ none ∨ ∃ c ∈ s.stops, c.stage ≠ .returned
  answers : ∀ c ∈ s.stops, s.Answers c

/-- Earlier registrations do not come to life, and only a live one begins a round. -/
structure Calms (s' : Stopping χ) : Prop where
  next : s.next ≤ s'.next
  live : ∀ job < s.next, job ∈ s'.zone.live → job ∈ s.zone.live
  round : ∀ job, s'.round = some (.job job) → s.round = some (.job job) ∨ job ∈ s.zone.live

variable {s} {s' : Stopping χ} {c d : Stop} {job call : Nat}

theorem sound_ofConfig (config : ZoneConfig) : (ofConfig config : Stopping χ).Sound := by
  constructor <;> exact nofun

theorem Calms.of_live (hnext : s'.next = s.next) (hlive : ∀ job ∈ s'.zone.live, job ∈ s.zone.live)
    (hround : ∀ job, s'.round = some (.job job) → s.round = some (.job job) ∨ job ∈ s.zone.live) : s.Calms s' :=
  ⟨Nat.le_of_eq hnext.symm, fun job _ => hlive job, hround⟩

theorem Answers.mono (h : s.Answers c) (calms : s.Calms s') : s'.Answers c := by
  refine ⟨fun job hjob => Nat.lt_of_lt_of_le (h.owed job hjob) calms.next, h.found, fun job hjob hrival => ?_⟩
  have hreaches := h.reaches job hjob hrival
  have hlive := calms.live job (h.owed job hjob)
  unfold Reaches at hreaches ⊢
  cases hstage : c.stage with
  | found | cancelled | halted =>
      rw [hstage] at hreaches
      exact fun hmem => hreaches (hlive hmem)
  | returned =>
      rw [hstage] at hreaches
      intro halone
      obtain ⟨hdead, hquiet⟩ := hreaches halone
      refine ⟨fun hmem => hdead (hlive hmem), fun hround => ?_⟩
      cases calms.round job hround with
      | inl hbefore => exact hquiet hbefore
      | inr hmem => exact hdead hmem

/-! ## Steps of the zone -/

/-- A round changes nothing about who drives the zone. -/
theorem driving_update [Character χ] (z : Zone χ) (delta : UInt64) :
    (z.update delta).zone.live = z.live ∧ (z.update delta).zone.driver = z.driver := by
  have happly : z.applyPending.1.live = z.live ∧ z.applyPending.1.driver = z.driver := by
    cases h : z.pending.isEmpty with
    | true => rw [Zone.applyPending_of_isEmpty h]; exact ⟨rfl, rfl⟩
    | false => rw [Zone.applyPending_of_not_isEmpty h]; exact ⟨rfl, rfl⟩
  rw [← happly.1, ← happly.2]
  simp only [Zone.update, Zone.publish]
  split <;> exact ⟨rfl, rfl⟩

theorem driver_engage (z : Zone χ) : (z.engage job).2.driver = some job := by
  rw [Zone.engage]
  split <;> rfl

theorem mem_live_engage {z : Zone χ} {other : Nat} (h : other ∈ (z.engage job).2.live) :
    other ∈ z.live ∧ z.driver ≠ some other := by
  rw [Zone.engage] at h
  split at h
  · next previous hdriver =>
      simp only [Zone.halt, List.mem_filter, bne_iff_ne] at h
      exact ⟨h.1, fun heq => h.2 (Option.some.inj (heq.symm.trans hdriver))⟩
  · next hdriver =>
      rw [hdriver]
      exact ⟨h, nofun⟩

/-! ## Every step keeps the invariant -/

section Step

variable (h : s.Sound)

include h

theorem Sound.submit [Character χ] (hstep : s.step .submit = some s') : s'.Sound ∧ s.Calms s' := by
  cases hstep
  have calms : s.Calms { s with
      zone := s.zone.enlist s.next, next := s.next + 1, starting := s.starting ++ [s.next] } := by
    refine ⟨Nat.le_succ _, fun job hlt hmem => ?_, fun job => .inl⟩
    cases List.mem_append.mp hmem with
    | inl hold => exact hold
    | inr hnew => exact absurd (List.mem_singleton.mp hnew) (Nat.ne_of_lt hlt)
  refine ⟨⟨fun job hmem => ?_, fun job hmem => ?_, fun job hmem hlive => ?_, h.flight, fun c hc => ?_⟩, calms⟩
  · cases List.mem_append.mp hmem with
    | inl hold => exact Nat.lt_succ_of_lt (h.starting job hold)
    | inr hnew => exact List.mem_singleton.mp hnew ▸ Nat.lt_succ_self _
  · exact Nat.lt_succ_of_lt (h.started job hmem)
  · exact h.held job hmem (calms.live job (h.started job hmem) hlive)
  · exact (h.answers c hc).mono calms

theorem Sound.engage [Character χ] (hstep : s.step (.engage job) = some s') : s'.Sound ∧ s.Calms s' := by
  simp only [step] at hstep
  split at hstep
  · next hstarting =>
      cases hstep
      have calms : s.Calms { s with
          zone := (s.zone.engage job).2, cancelled := (s.zone.engage job).1.toList ++ s.cancelled
          starting := s.starting.erase job, started := job :: s.started } :=
        .of_live rfl (fun _ hmem => (mem_live_engage hmem).1) fun _ => .inl
      refine ⟨⟨fun other hmem => ?_, fun other hmem => ?_, fun other hmem hlive => ?_, fun other _ _ => ?_,
        fun c hc => (h.answers c hc).mono calms⟩, calms⟩
      · exact h.starting other (List.mem_of_mem_erase hmem)
      · cases List.mem_cons.mp hmem with
        | inl heq => exact heq ▸ h.starting job hstarting
        | inr hold => exact h.started other hold
      · cases List.mem_cons.mp hmem with
        | inl heq => exact .inl (heq ▸ driver_engage s.zone)
        | inr hold =>
            obtain ⟨hbefore, hdriver⟩ := mem_live_engage hlive
            exact .inr ((h.held other hold hbefore).resolve_left hdriver)
      · exact .inl fun hnone => nomatch (driver_engage s.zone).symm.trans hnone
  · cases hstep

/-- A call that is under way has a registration in hand. -/
theorem Sound.mem_inHand (hc : c ∈ s.stops) (hstage : c.stage ≠ .returned) :
    ∃ job ∈ s.inHand, c.found = some job := by
  cases hfound : c.found with
  | none => exact absurd ((h.answers c hc).found hfound) hstage
  | some job =>
      refine ⟨job, List.mem_filterMap.mpr ⟨c, List.mem_filter.mpr ⟨hc, ?_⟩, hfound⟩, rfl⟩
      exact bne_iff_ne.mpr hstage

theorem Sound.mem_inHand_of_holds (hc : c ∈ s.stops) (hholds : c.Holds job) : job ∈ s.inHand := by
  obtain ⟨hfound, hstage⟩ := hholds
  obtain ⟨other, hmem, heq⟩ := h.mem_inHand hc (by rintro heq; simp [heq] at hstage)
  exact Option.some.inj (heq.symm.trans hfound) ▸ hmem

/-- What a call of `stop` has reached with its first step. -/
theorem Sound.answers_find {s' : Stopping χ} (hlive : s'.zone.live = s.zone.live) (hround : s'.round = s.round)
    (hnext : s'.next = s.next) : s'.Answers {
      found := s.zone.driver, stage := if s.zone.driver.isSome then .found else .returned
      owed := s.started, rivals := s.inHand } := by
  refine ⟨fun job hmem => hnext ▸ h.started job hmem, fun hnone => ?_, fun job hmem hrival => ?_⟩
  · change s.zone.driver = none at hnone
    simp [hnone]
  have hheld (hmemlive : job ∈ s.zone.live) : s.zone.driver = some job := by
    refine (h.held job hmem hmemlive).resolve_right fun ⟨c, hc, hholds⟩ => ?_
    exact hrival (h.mem_inHand_of_holds hc hholds)
  cases hdriver : s.zone.driver with
  | some driver =>
      intro hmemlive
      rw [hlive] at hmemlive
      exact hdriver ▸ hheld hmemlive
  | none =>
      intro halone
      have hnobody : s.inHand = [] := halone rfl
      rw [hlive, hround]
      refine ⟨fun hmemlive => (nomatch hdriver.symm.trans (hheld hmemlive)), fun hflight => ?_⟩
      cases h.flight job hmem hflight with
      | inl hsome => exact hsome hdriver
      | inr hunderway =>
          obtain ⟨c, hc, hstage⟩ := hunderway
          obtain ⟨other, hother, -⟩ := h.mem_inHand hc hstage
          rw [hnobody] at hother
          cases hother

theorem Sound.find [Character χ] (hstep : s.step .find = some s') : s'.Sound ∧ s.Calms s' := by
  cases hstep
  have calms : s.Calms { s with
      zone := s.zone.disengage.2
      stops := s.stops ++ [{
        found := s.zone.driver, stage := if s.zone.driver.isSome then .found else .returned
        owed := s.started, rivals := s.inHand }] } := .of_live rfl (fun _ => id) fun _ => .inl
  refine ⟨⟨h.starting, h.started, fun job hmem hlive => ?_, fun job hmem hround => ?_, fun c hc => ?_⟩, calms⟩
  · cases h.held job hmem hlive with
    | inl hdriver =>
        refine .inr ⟨_, List.mem_append_right _ (List.mem_singleton_self _), hdriver, .inl ?_⟩
        simp [hdriver]
    | inr hholds =>
        obtain ⟨c, hc, hholds⟩ := hholds
        exact .inr ⟨c, List.mem_append_left _ hc, hholds⟩
  · cases h.flight job hmem hround with
    | inl hdriver =>
        refine .inr ⟨_, List.mem_append_right _ (List.mem_singleton_self _), ?_⟩
        simp [Option.isSome_iff_ne_none.mpr hdriver]
    | inr hunderway =>
        obtain ⟨c, hc, hstage⟩ := hunderway
        exact .inr ⟨c, List.mem_append_left _ hc, hstage⟩
  · cases List.mem_append.mp hc with
    | inl hold => exact (h.answers c hold).mono calms
    | inr hnew =>
        rw [List.mem_singleton.mp hnew]
        exact h.answers_find rfl rfl rfl

/-- A call goes on, and the others are where they were. -/
theorem Sound.goesOn {stage : Stop.Stage} (here : s.stops[call]? = some c) (hfound : c.found ≠ none)
    (calms : s.Calms s') (hstarting : s'.starting = s.starting) (hstarted : s'.started = s.started)
    (hdriver : s'.zone.driver = s.zone.driver) (hstops : s'.stops = s.moveOn call c stage)
    (hheld : ∀ job ∈ s'.zone.live, c.Holds job → ({ c with stage } : Stop).Holds job)
    (hflight : s'.round ≠ none → stage ≠ .returned)
    (hreaches : ∀ job, s.Reaches c job → s'.Reaches { c with stage } job) : s'.Sound := by
  have hmem := List.mem_of_getElem? here
  have hnew : ({ c with stage } : Stop) ∈ s'.stops := by
    rw [hstops]
    exact List.mem_set (List.getElem?_eq_some_iff.mp here).1 _
  have hnext {job : Nat} (hlt : job < s.next) : job < s'.next := Nat.lt_of_lt_of_le hlt calms.next
  constructor
  · exact fun job hjob => hnext (h.starting job (hstarting ▸ hjob))
  · exact fun job hjob => hnext (h.started job (hstarted ▸ hjob))
  · intro job hjob hlive
    rw [hstarted] at hjob
    rw [hdriver]
    refine (h.held job hjob (calms.live job (h.started job hjob) hlive)).imp_right fun ⟨d, hd, hholds⟩ => ?_
    cases mem_set_or_eq here hd { c with stage } with
    | inl hother => exact ⟨d, hstops ▸ hother, hholds⟩
    | inr heq => exact ⟨_, hnew, hheld job hlive (heq ▸ hholds)⟩
  · intro job hjob hround
    exact .inr ⟨_, hnew, hflight (by rw [hround]; nofun)⟩
  · intro d hd
    rw [hstops] at hd
    cases List.mem_or_eq_of_mem_set hd with
    | inl hold => exact (h.answers d hold).mono calms
    | inr heq =>
        subst heq
        have answers := h.answers c hmem
        refine ⟨fun job hjob => hnext (answers.owed job hjob), fun hnone => absurd hnone hfound, ?_⟩
        exact fun job hjob hrival => hreaches job (answers.reaches job hjob hrival)

theorem Sound.cancel [Character χ] (hstep : s.step (.cancel call) = some s') : s'.Sound ∧ s.Calms s' := by
  simp only [step] at hstep
  split at hstep
  · next c here =>
      split at hstep
      · next job hstage hfound =>
          cases hstep
          have calms : s.Calms { s with
              cancelled := job :: s.cancelled, stops := s.moveOn call c .cancelled } :=
            .of_live rfl (fun _ => id) fun _ => .inl
          refine ⟨h.goesOn here (by simp [hfound]) calms rfl rfl rfl rfl ?_ (fun _ => nofun) ?_, calms⟩
          · exact fun other _ hholds => ⟨hholds.1, .inr rfl⟩
          · intro other hreaches
            simpa only [Reaches, hstage] using hreaches
      · cases hstep
  · cases hstep

theorem Sound.halt [Character χ] (hstep : s.step (.halt call) = some s') : s'.Sound ∧ s.Calms s' := by
  simp only [step] at hstep
  split at hstep
  · next c here =>
      split at hstep
      · next job hstage hfound =>
          cases hstep
          have hlive {other : Nat} (hmem : other ∈ (s.zone.halt job).live) :
              other ∈ s.zone.live ∧ other ≠ job := by
            simpa [Zone.halt] using hmem
          have calms : s.Calms { s with zone := s.zone.halt job, stops := s.moveOn call c .halted } :=
            .of_live rfl (fun _ hmem => (hlive hmem).1) fun _ => .inl
          refine ⟨h.goesOn here (by simp [hfound]) calms rfl rfl rfl rfl ?_ (fun _ => nofun) ?_, calms⟩
          · intro other hmem hholds
            have heq : some job = some other := hfound.symm.trans hholds.1
            exact absurd (Option.some.inj heq).symm (hlive hmem).2
          · intro other hreaches
            simp only [Reaches, hstage] at hreaches ⊢
            intro hmem
            have heq : some job = some other := hfound.symm.trans (hreaches (hlive hmem).1)
            exact (hlive hmem).2 (Option.some.inj heq).symm
      · cases hstep
  · cases hstep

theorem Sound.wait [Character χ] (hstep : s.step (.wait call) = some s') : s'.Sound ∧ s.Calms s' := by
  simp only [step] at hstep
  split at hstep
  · next c here =>
      split at hstep
      · next hready =>
          obtain ⟨hstage, hround⟩ := hready
          cases hstep
          have hfound : c.found ≠ none := fun hnone => by
            have hreturned := (h.answers c (List.mem_of_getElem? here)).found hnone
            rw [hstage] at hreturned
            cases hreturned
          have calms : s.Calms { s with stops := s.moveOn call c .returned } :=
            .of_live rfl (fun _ => id) fun _ => .inl
          refine ⟨h.goesOn here hfound calms rfl rfl rfl rfl ?_ (absurd hround) ?_, calms⟩
          · intro other _ hholds
            simp [Stop.Holds, hstage] at hholds
          · intro other hreaches
            simp only [Reaches, hstage] at hreaches ⊢
            exact fun _ => ⟨hreaches, by simp [hround]⟩
      · cases hstep
  · cases hstep

/-- A step that leaves registrations and calls alone. -/
theorem Sound.stays (calms : s.Calms s') (hnext : s'.next = s.next) (hstarting : s'.starting = s.starting)
    (hstarted : s'.started = s.started) (hdriver : s'.zone.driver = s.zone.driver)
    (hstops : s'.stops = s.stops) : s'.Sound := by
  constructor
  · rw [hstarting, hnext]
    exact h.starting
  · rw [hstarted, hnext]
    exact h.started
  · intro job hjob hlive
    rw [hstarted] at hjob
    rw [hdriver, hstops]
    exact h.held job hjob (calms.live job (h.started job hjob) hlive)
  · intro job hjob hround
    rw [hstarted] at hjob
    rw [hdriver, hstops]
    cases calms.round job hround with
    | inl hbefore => exact h.flight job hjob hbefore
    | inr hlive =>
        cases h.held job hjob hlive with
        | inl hsome => exact .inl (by simp [hsome])
        | inr hholds =>
            obtain ⟨c, hc, hholds⟩ := hholds
            exact .inr ⟨c, hc, fun hreturned => by simp [Stop.Holds, hreturned] at hholds⟩
  · intro c hc
    exact (h.answers c (hstops ▸ hc)).mono calms

theorem Sound.arrive [Character χ] (hstep : s.step (.arrive job) = some s') : s'.Sound ∧ s.Calms s' := by
  simp only [step] at hstep
  split at hstep
  · cases hstep
    have calms : s.Calms { s with callbacks := s.callbacks ++ [job] } := .of_live rfl (fun _ => id) fun _ => .inl
    exact ⟨h.stays calms rfl rfl rfl rfl rfl, calms⟩
  · cases hstep

theorem Sound.enter [Character χ] (hstep : s.step (.enter job) = some s') : s'.Sound ∧ s.Calms s' := by
  simp only [step, Zone.drivenRound] at hstep
  split at hstep
  · split at hstep
    · next r hround =>
        split at hround
        · next hmem =>
            cases hround
            cases hstep
            obtain ⟨hlive, hdriver⟩ := driving_update s.zone s.zone.config.tickMillis
            have calms : s.Calms { s with
                zone := (s.zone.update s.zone.config.tickMillis).zone, callbacks := s.callbacks.erase job
                round := some (.job job) } := by
              refine .of_live rfl (fun _ hmem => hlive ▸ hmem) fun other hround => .inr ?_
              cases hround
              exact List.contains_iff_mem.mp hmem
            exact ⟨h.stays calms rfl rfl rfl hdriver rfl, calms⟩
        · cases hround
    · cases hstep
      have calms : s.Calms { s with callbacks := s.callbacks.erase job } :=
        .of_live rfl (fun _ => id) fun _ => .inl
      exact ⟨h.stays calms rfl rfl rfl rfl rfl, calms⟩
  · cases hstep

theorem Sound.update [Character χ] {delta : UInt64} (hstep : s.step (.update delta) = some s') :
    s'.Sound ∧ s.Calms s' := by
  simp only [step] at hstep
  split at hstep
  · cases hstep
    obtain ⟨hlive, hdriver⟩ := driving_update s.zone delta
    have calms : s.Calms { s with zone := (s.zone.update delta).zone, round := some .caller } :=
      .of_live rfl (fun _ hmem => hlive ▸ hmem) nofun
    exact ⟨h.stays calms rfl rfl rfl hdriver rfl, calms⟩
  · cases hstep

theorem Sound.leave [Character χ] (hstep : s.step .leave = some s') : s'.Sound ∧ s.Calms s' := by
  simp only [step] at hstep
  split at hstep
  · cases hstep
  · cases hstep
    have calms : s.Calms { s with round := none } := .of_live rfl (fun _ => id) nofun
    exact ⟨h.stays calms rfl rfl rfl rfl rfl, calms⟩

end Step

theorem Sound.step [Character χ] {a : Action} (h : s.Sound) (hstep : s.step a = some s') :
    s'.Sound ∧ s.Calms s' := by
  cases a with
  | submit => exact h.submit hstep
  | engage job => exact h.engage hstep
  | find => exact h.find hstep
  | cancel call => exact h.cancel hstep
  | halt call => exact h.halt hstep
  | wait call => exact h.wait hstep
  | arrive job => exact h.arrive hstep
  | enter job => exact h.enter hstep
  | update delta => exact h.update hstep
  | leave => exact h.leave hstep

/-! ## Along a run -/

variable {as : List Action}

theorem run_cons [Character χ] {a : Action} (hrun : run (a :: as) s = some s') :
    ∃ t, s.step a = some t ∧ run as t = some s' :=
  Option.bind_eq_some_iff.mp hrun

theorem Sound.run [Character χ] (h : s.Sound) (hrun : run as s = some s') : s'.Sound := by
  induction as generalizing s with
  | nil =>
      cases hrun
      exact h
  | cons a as ih =>
      obtain ⟨t, hstep, hrest⟩ := run_cons hrun
      exact ih (h.step hstep).1 hrest

/-- The registration is halted, and no round of it is in flight. -/
def Still (s : Stopping χ) (job : Nat) : Prop :=
  job < s.next ∧ job ∉ s.zone.live ∧ s.round ≠ some (.job job)

theorem Still.calms (still : s.Still job) (calms : s.Calms s') : s'.Still job := by
  obtain ⟨hlt, hdead, hquiet⟩ := still
  refine ⟨Nat.lt_of_lt_of_le hlt calms.next, fun hmem => hdead (calms.live job hlt hmem), fun hround => ?_⟩
  cases calms.round job hround with
  | inl hbefore => exact hquiet hbefore
  | inr hmem => exact hdead hmem

theorem Still.run [Character χ] (still : s.Still job) (h : s.Sound) (hrun : run as s = some s') :
    s'.Still job ∧ job ∉ begunAlong as s := by
  induction as generalizing s with
  | nil =>
      cases hrun
      exact ⟨still, List.not_mem_nil⟩
  | cons a as ih =>
      obtain ⟨t, hstep, hrest⟩ := run_cons hrun
      obtain ⟨hsound, hcalms⟩ := h.step hstep
      obtain ⟨hstill, hlater⟩ := ih (still.calms hcalms) hsound hrest
      refine ⟨hstill, fun hmem => ?_⟩
      rw [begunAlong, hstep, List.mem_append] at hmem
      refine hmem.elim (fun hnow => ?_) hlater
      cases a with
      | enter other =>
          rw [begun] at hnow
          split at hnow
          · next hlive =>
              cases List.mem_singleton.mp hnow
              exact still.2.1 (List.contains_iff_mem.mp hlive)
          · cases hnow
      | _ => cases hnow

/-- What `stop` promises about a registration: no round of it is in flight, and none will ever begin. -/
def Barred [Character χ] (s : Stopping χ) (job : Nat) : Prop :=
  s.round ≠ some (.job job) ∧ ∀ later s', run later s = some s' → job ∉ begunAlong later s

theorem Still.barred [Character χ] (still : s.Still job) (h : s.Sound) : s.Barred job :=
  ⟨still.2.2, fun _ _ hrun => (still.run h hrun).2⟩

/-- When a call of `stop` has returned that found a driver, or found none while no other call was under way, all
registrations are barred that were started before and that no other call had in hand. -/
theorem barred_after_stop [Character χ] {config : ZoneConfig} {acts : List Action}
    (hrun : run acts (ofConfig config) = some s) (hc : c ∈ s.stops) (hreturned : c.stage = .returned)
    (halone : c.found = none → c.rivals = []) : ∀ job ∈ c.owed, job ∉ c.rivals → s.Barred job := by
  intro job hjob hrival
  have h := (sound_ofConfig config).run hrun
  have answers := h.answers c hc
  have hreaches := answers.reaches job hjob hrival
  rw [Reaches, hreturned] at hreaches
  have still : s.Still job := ⟨answers.owed job hjob, hreaches halone⟩
  exact still.barred h

/-- A registration whose round is in flight when it is taken away and halted; its next callback was let through
before, and finds it halted. -/
def quietStop : List Action :=
  [.submit, .engage 0, .arrive 0, .enter 0, .find, .leave, .arrive 0, .cancel 0, .halt 0, .enter 0, .wait 0]

theorem barred_after_stop_quiet : ∃ s : Stopping Unit, run quietStop (ofConfig {}) = some s ∧
    ∃ c ∈ s.stops, c.stage = .returned ∧ (c.found = none → c.rivals = []) ∧ 0 ∈ c.owed ∧ 0 ∉ c.rivals ∧
      s.Barred 0 := by
  have hrun : run quietStop (ofConfig {} : Stopping Unit) = some _ := rfl
  refine ⟨_, hrun, _, List.mem_cons_self, rfl, nofun, List.mem_cons_self, List.not_mem_nil, ?_⟩
  exact barred_after_stop hrun List.mem_cons_self rfl nofun 0 List.mem_cons_self List.not_mem_nil

/-- One call of `stop` takes the driver away while its round is in flight, and another finds none. -/
def overlap : List Action := [.submit, .engage 0, .arrive 0, .enter 0, .find, .find]

/-- The second call has returned; the round is still in flight, and the next callback begins another one, because
the first call has not got to cancelling the job. -/
theorem overlap_breaks : ∃ s : Stopping Unit, run overlap (ofConfig {}) = some s ∧
    ∃ c ∈ s.stops, c.stage = .returned ∧ 0 ∈ c.owed ∧ s.round = some (.job 0) ∧
      (∃ s', run [.leave, .arrive 0, .enter 0] s = some s') ∧ begunAlong [.leave, .arrive 0, .enter 0] s = [0] ∧
      ¬s.Barred 0 := by
  have hrun : run overlap (ofConfig {} : Stopping Unit) = some _ := rfl
  refine ⟨_, hrun, _, List.mem_cons_of_mem _ List.mem_cons_self, rfl, List.mem_cons_self, rfl, ⟨_, rfl⟩, rfl, ?_⟩
  exact fun hbarred => hbarred.1 rfl

end Stopping

end Behavior
