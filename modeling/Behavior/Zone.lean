import Behavior.Agent
import Behavior.Scheduler
import Behavior.Table
import Behavior.Zone.Config
import Behavior.Zone.Error
/-!
# Zones

A zone holds agents and updates all of them a round at a time. Arrivals and departures are queued, and
take effect when the next round, or another visit to the agents, begins. What others may read at any time
is published: the identities of the members, and snapshots when debugging.
-/

namespace Behavior

/-- The changes that wait for the next round. -/
structure Pending (χ : Type) where
  /-- Arrivals, in order. -/
  arrivals : List (Agent χ) := []
  /-- Departures, ids ascending. -/
  departures : List EntityId := []

/-- A set of agents that are updated together. -/
structure Zone (χ : Type) where
  config : ZoneConfig
  /-- The agents, ids ascending. -/
  agents : List (Agent χ) := []
  pending : Pending χ := {}
  /-- The published identities of the agents. -/
  members : List EntityId := []
  debugging : Bool := config.debug
  snapshots : Table EntityId AgentSnapshot := {}
  /-- The job that drives rounds. -/
  driver : Option Nat := none
  /-- The jobs that may still begin a round. -/
  live : List Nat := []

namespace Pending

variable {χ : Type} (p : Pending χ)

def isEmpty : Bool := p.arrivals.isEmpty && p.departures.isEmpty

def isArriving (id : EntityId) : Bool := p.arrivals.any (·.entity == id)

def isDeparting (id : EntityId) : Bool := p.departures.contains id

def arrive (a : Agent χ) : Pending χ := { p with arrivals := p.arrivals ++ [a] }

/-- Takes an arrival back. -/
def withdraw (id : EntityId) : Pending χ := { p with arrivals := p.arrivals.eraseP (·.entity == id) }

/-- An ascending list with one more id. -/
def insertSorted (id : EntityId) : List EntityId → List EntityId
  | [] => [id]
  | e :: es => if id < e then id :: e :: es else if id = e then e :: es else e :: insertSorted id es

/-- Queues a departure. -/
def depart (id : EntityId) : Pending χ := { p with departures := insertSorted id p.departures }

end Pending

namespace Zone

variable {χ : Type}

/-- A zone without agents. -/
def ofConfig (config : ZoneConfig) : Zone χ := { config }

variable (z : Zone χ)

/-- What the agents see of the zone. -/
def roster : Roster := ⟨z.config.name, z.members⟩

def isRunning : Bool := z.driver.isSome

def debug : String :=
  Text.record "Zone"
    [("name", Text.quoted z.config.name), ("entities", toString z.members.length),
      ("parallel", Text.bool z.config.parallel)]

/-! ## Arrivals and departures -/

/-- Queues an agent for the next round. -/
def add (a : Agent χ) : Except ZoneError (Zone χ) :=
  let present := z.roster.contains a.entity && !z.pending.isDeparting a.entity
  if present || z.pending.isArriving a.entity then .error (.duplicateEntity a.entity)
  else .ok { z with pending := z.pending.arrive a }

/-- Queues a departure, or takes back an arrival; `false` if the zone neither has nor expects the
entity. -/
def remove (id : EntityId) : Bool × Zone χ :=
  if z.pending.isArriving id then (true, { z with pending := z.pending.withdraw id })
  else if !z.roster.contains id then (false, z)
  else if z.pending.isDeparting id then (false, z)
  else (true, { z with pending := z.pending.depart id })

/-- Takes the queued changes; they are not in force yet. -/
def takePending : Pending χ × Zone χ := (z.pending, { z with pending := {} })

/-- An agent that arrives in a zone looks for its group there and gets its seed from there. -/
def welcome (config : ZoneConfig) (a : Agent χ) : Agent χ :=
  { a with zone := .home, seed := config.seed.getD a.seed }

/-- Places an agent in an ascending list; one with the same id gives way. -/
def place (a : Agent χ) (agents : List (Agent χ)) : List (Agent χ) :=
  match search (fun b => compare b.entity a.entity) agents with
  | .found i => agents.set i a
  | .missing i => agents.insertIdx i a

/-- Puts changes in force: first the departures, then the arrivals, and then publishes the members. -/
def settle (p : Pending χ) : Zone χ × List Entry :=
  if p.isEmpty then (z, [])
  else
    let staying := z.agents.filter fun a => !p.isDeparting a.entity
    let agents := p.arrivals.foldl (fun as a => place (welcome z.config a) as) staying
    ({ z with
        agents, members := agents.map (·.entity)
        snapshots := p.departures.foldl (·.erase ·) z.snapshots },
      p.departures.map (.agentRemoved z.config.name)
        ++ p.arrivals.map fun a => .agentAdded z.config.name a.entity)

/-- Puts the queued changes in force. -/
def applyPending : Zone χ × List Entry :=
  let (p, z) := z.takePending
  z.settle p

/-! ## Rounds and visits -/

/-- Publishes a snapshot of every agent. -/
def publish : Zone χ :=
  if z.debugging then
    { z with snapshots := z.agents.foldl (fun t a => t.insert a.entity a.snapshot) z.snapshots }
  else z

/-- What a round gives: the number of updated agents, the zone after it, and what it reports. -/
structure Round (χ : Type) where
  count : Nat
  zone : Zone χ
  journal : List Entry

/-- Runs a round: puts the queued changes in force, updates every agent once, and publishes snapshots. -/
def update [Character χ] (delta : UInt64) : Round χ :=
  let (z, journal) := z.applyPending
  let turns := z.agents.map fun a => a.update (some z.roster) delta
  let z := { z with agents := turns.map Agent.Turn.agent }.publish
  { count := z.agents.length, zone := z, journal := journal ++ turns.flatMap Agent.Turn.journal }

/-- Visits one agent between rounds. -/
def execute {ρ : Type} (id : EntityId) (visit : Agent χ → ρ × Agent χ) : Option ρ × Zone χ × List Entry :=
  let (z, journal) := z.applyPending
  match (search (fun a => compare a.entity id) z.agents).index? with
  | none => (none, z, journal)
  | some i =>
    match z.agents[i]? with
    | none => (none, z, journal)
    | some a =>
      let (answer, a) := visit a
      (some answer, { z with agents := z.agents.set i a }, journal)

/-- Visits agents in order; what the visitor keeps for itself goes along from one to the next. -/
def visitAll {σ : Type} (visit : σ → Agent χ → σ × Agent χ) (kept : σ) : List (Agent χ) → σ × List (Agent χ)
  | [] => (kept, [])
  | a :: as =>
    let (kept, a) := visit kept a
    let (kept, as) := visitAll visit kept as
    (kept, a :: as)

/-- Visits every agent in the order of the ids. -/
def forEachFrom {σ : Type} (kept : σ) (visit : σ → Agent χ → σ × Agent χ) : σ × Zone χ × List Entry :=
  let (z, journal) := z.applyPending
  let (kept, agents) := visitAll visit kept z.agents
  (kept, { z with agents }, journal)

/-- Visits every agent in the order of the ids and collects the answers. -/
def forEach {ρ : Type} (visit : Agent χ → ρ × Agent χ) : List ρ × Zone χ × List Entry :=
  z.forEachFrom [] fun answers a =>
    let (answer, a) := visit a
    (answers ++ [answer], a)

/-! ## Debugging -/

/-- Switches the publication of snapshots; those there are go when it is switched off. -/
def setDebugging (on : Bool) : Zone χ :=
  if on then { z with debugging := true } else { z with debugging := false, snapshots := {} }

def snapshot? (id : EntityId) : Option AgentSnapshot := z.snapshots.get? id

def snapshotList : List AgentSnapshot := z.snapshots.entries.map (·.2)

/-! ## Driven rounds -/

/-- The period of driven rounds. -/
def period : Duration := .ofMillis z.config.tickMillis.toNat

/-- From now on a job may begin rounds. -/
def enlist (job : Nat) : Zone χ := { z with live := z.live ++ [job] }

/-- A job may begin no more rounds. -/
def halt (job : Nat) : Zone χ := { z with live := z.live.filter (· != job) }

/-- Makes a job the driver in place of any other, which is halted and has to be cancelled. -/
def engage (job : Nat) : Option Nat × Zone χ :=
  let z' := { z with driver := some job }
  match z.driver with
  | some previous => (some previous, z'.halt previous)
  | none => (none, z')

/-- Leaves the zone without a driver; the job that was it has to be halted and cancelled. -/
def disengage : Option Nat × Zone χ := (z.driver, { z with driver := none })

/-- Has a scheduler drive rounds. -/
def start (s : Scheduler) (now : Duration) : Except ZoneError (Zone χ × List Entry) × Scheduler :=
  let submission := s.submit now z.period (some z.period)
  match submission.answer with
  | .ok job =>
    let (old, z) := (z.enlist job).engage job
    let s := match old with
      | some previous => submission.scheduler.cancel previous
      | none => submission.scheduler
    (.ok (z, submission.journal ++ [.zoneStarted z.config.name z.config.tickMillis]), s)
  | .error e => (.error e, submission.scheduler)

def stop (s : Scheduler) : Zone χ × List Entry × Scheduler :=
  match z.disengage with
  | (none, z) => (z, [], s)
  | (some job, z) => (z.halt job, [.zoneStopped z.config.name], s.cancel job)

/-- Runs the round of a job, unless the job was halted. -/
def drivenRound [Character χ] (job : Nat) : Option (Round χ) :=
  if z.live.contains job then some (z.update z.config.tickMillis) else none

end Zone

end Behavior
