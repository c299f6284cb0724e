import Behavior.Duration
import Behavior.Journal
import Behavior.Queue
import Behavior.Zone.Error
/-!
# Schedulers

A scheduler runs jobs once or at a fixed rate. A timer keeps the deadlines and moves what is due to a
queue; workers take it from there, one run at a time, and put a periodic job back when its run is over.
Whoever shuts a scheduler down waits for the runs in progress, the own one apart if the call is made from
within a run.

Threads are not simulated: what they do between two points of synchronisation is one step, and an
`Action` names a step. Any order of steps that `step` allows may happen.
-/

namespace Behavior

/-- A job that was accepted. -/
structure Job where
  id : Nat
  period : Option Duration := none
  cancelled : Bool := false
  deriving DecidableEq, Repr

/-- The record of a job, as its owner sees it. -/
def Job.debug (j : Job) : String :=
  Text.record "TaskHandle"
    [("id", toString j.id), ("period", Text.option Duration.text j.period),
      ("cancelled", Text.bool j.cancelled)]

/-- A run of a job that is due. -/
structure Due where
  deadline : Duration
  job : Nat
  deriving DecidableEq, Repr

/-- A deadline to come; of equal deadlines the one with the lower number goes first. -/
structure Timer where
  deadline : Duration
  number : Nat
  job : Nat
  deriving DecidableEq, Repr

/-- What a worker has in hand. -/
inductive Hand where
  | free
  /-- A due run that was taken from the queue. -/
  | taken (due : Due)
  /-- A due run of a job that was found not to be cancelled. -/
  | cleared (due : Due)
  /-- A run in progress. -/
  | running (due : Due)
  /-- A run that is over. -/
  | ran (due : Due)
  /-- A run that is over, of a periodic job that was found not to be cancelled. -/
  | renewing (due : Due)
  /-- The worker has ended. -/
  | ended
  deriving DecidableEq, Repr

/-- How far a call that shuts a scheduler down has come. -/
inductive Closing.Stage where
  /-- Nothing is accepted any more. -/
  | begun
  /-- The workers are turned away. -/
  | aborted
  /-- The call waits for the threads. -/
  | waiting
  | returned
  deriving DecidableEq, Repr

/-- A call that shuts a scheduler down. -/
structure Closing where
  /-- The worker from whose run the call is made. -/
  caller : Option Nat
  stage : Closing.Stage := .begun
  /-- The call came first to wait for the threads; the others do not wait. -/
  isFirst : Bool := false
  deriving DecidableEq, Repr

/-- The state of a scheduler. -/
structure Scheduler where
  jobs : List Job := []
  timers : List Timer := []
  ready : Queue Due := {}
  hands : List Hand
  nextJob : Nat := 1
  nextNumber : Nat := 1
  /-- Nothing is accepted any more. -/
  isShutDown : Bool := false
  /-- The calls that shut it down, in order. -/
  closings : List Closing := []
  deriving DecidableEq, Repr

namespace Scheduler

/-- A new scheduler, with at least one worker. -/
def ofWorkers (workers : Nat) : Scheduler := { hands := List.replicate (max workers 1) .free }

variable (s : Scheduler)

/-- Somebody waits for the threads, or has done so. -/
def isCollected : Bool := s.closings.any (·.isFirst)

/-- The number of threads that nobody waits for: the workers and the timer. -/
def threads : Nat := if s.isCollected then 0 else s.hands.length + 1

def debug : String :=
  Text.record "Scheduler" [("threads", toString s.threads), ("shut_down", Text.bool s.isShutDown)]

def job? (id : Nat) : Option Job := s.jobs.find? (·.id == id)

def isCancelled (id : Nat) : Bool := (s.job? id).any (·.cancelled)

def period? (id : Nat) : Option Duration := (s.job? id).bind (·.period)

/-! ## Deadlines -/

/-- Whether one deadline goes before another. -/
def Timer.before (a b : Timer) : Bool :=
  a.deadline.nanos < b.deadline.nanos || (a.deadline == b.deadline && a.number < b.number)

/-- The deadline that goes first. -/
def first? : List Timer → Option Timer
  | [] => none
  | t :: ts =>
    match first? ts with
    | none => some t
    | some u => if Timer.before u t then some u else some t

/-- Adds a deadline, unless the scheduler is shut down. -/
def enqueue (deadline : Duration) (job : Nat) : Bool × Scheduler :=
  if s.isShutDown then (false, s)
  else
    (true, { s with
      timers := s.timers ++ [{ deadline, number := s.nextNumber, job }], nextNumber := s.nextNumber + 1 })

/-! ## Steps -/

/-- The shortest period. -/
def leastPeriod : Duration := .ofMillis 1

/-- What becomes of a submission. -/
structure Submission where
  job : Nat
  accepted : Bool
  scheduler : Scheduler
  journal : List Entry

/-- Submits a job whose first run is due after a delay. A number is used up even if the job is refused. -/
def submit (now delay : Duration) (period : Option Duration) : Submission :=
  let id := s.nextJob
  let period := period.map (·.max leastPeriod)
  match { s with nextJob := id + 1 }.enqueue (now + delay) id with
  | (false, s) => { job := id, accepted := false, scheduler := s, journal := [] }
  | (true, s) =>
    { job := id, accepted := true, scheduler := { s with jobs := s.jobs ++ [⟨id, period, false⟩] }
      journal := [.jobScheduled id delay period] }

/-- What is answered to a submission. -/
def Submission.answer (r : Submission) : Except ZoneError Nat :=
  if r.accepted then .ok r.job else .error .schedulerStopped

/-- Cancels a job: no run of it will start that was not already cleared. -/
def cancel (id : Nat) : Scheduler :=
  { s with jobs := s.jobs.map fun j => if j.id = id then { j with cancelled := true } else j }

/-- The timer moves the first deadline to the queue if it has passed; a cancelled job is dropped. -/
def fire (now : Duration) : Option Scheduler :=
  if s.isShutDown then none
  else
    match first? s.timers with
    | none => none
    | some t =>
      if now.nanos < t.deadline.nanos then none
      else
        let s' := { s with timers := s.timers.erase t }
        some (if s.isCancelled t.job then s'
          else { s' with ready := (s.ready.push { deadline := t.deadline, job := t.job }).2 })

def hand (worker : Nat) : Hand := s.hands.getD worker .ended

def setHand (worker : Nat) (h : Hand) : Scheduler := { s with hands := s.hands.set worker h }

/-- A free worker takes a due run from the queue, or ends when the queue is aborted. -/
def take (worker : Nat) : Option Scheduler :=
  match s.hand worker with
  | .free =>
    match s.ready.waitPop with
    | (.item due, ready) => some ({ s with ready }.setHand worker (.taken due))
    | (.turnedAway, _) => some (s.setHand worker .ended)
    | (.blocked, _) => none
  | _ => none

/-- A worker looks whether the job it took was cancelled. -/
def check (worker : Nat) : Option Scheduler :=
  match s.hand worker with
  | .taken due => some (s.setHand worker (if s.isCancelled due.job then .free else .cleared due))
  | _ => none

/-- A worker starts a run. -/
def start (worker : Nat) : Option Scheduler :=
  match s.hand worker with
  | .cleared due => some (s.setHand worker (.running due))
  | _ => none

/-- A call that shuts down is made from within the run of a worker and has not returned. -/
def isClosing (worker : Nat) : Bool := s.closings.any fun c => c.caller = some worker && c.stage != .returned

/-- A worker is through with a run. -/
def finish (worker : Nat) : Option Scheduler :=
  match s.hand worker with
  | .running due => if s.isClosing worker then none else some (s.setHand worker (.ran due))
  | _ => none

/-- A worker looks whether the job it ran is periodic, and whether it was cancelled. -/
def recheck (worker : Nat) : Option Scheduler :=
  match s.hand worker with
  | .ran due =>
    some (s.setHand worker
      (if (s.period? due.job).isNone || s.isCancelled due.job then .free else .renewing due))
  | _ => none

/-- A worker puts a job back: it is due again a period after its last deadline, or now if that has passed. -/
def renew (worker : Nat) (now : Duration) : Option Scheduler :=
  match s.hand worker with
  | .renewing due =>
    let period := (s.period? due.job).getD leastPeriod
    some ((s.setHand worker .free).enqueue ((due.deadline + period).max now) due.job).2
  | _ => none

/-! ## Shutting down -/

/-- A call begins to shut down: no more jobs are accepted, and all deadlines are forgotten. -/
def shutDown (caller : Option Nat) : Option Scheduler :=
  let s' := { s with isShutDown := true, timers := [], closings := s.closings ++ [{ caller }] }
  match caller with
  | none => some s'
  | some worker =>
    match s.hand worker with
    | .running _ => some s'
    | _ => none

/-- A call turns the workers away once they are free. -/
def abort (call : Nat) : Option Scheduler :=
  match s.closings[call]? with
  | some { caller, stage := .begun, isFirst } =>
    some { s with
      ready := s.ready.abort, closings := s.closings.set call { caller, stage := .aborted, isFirst } }
  | _ => none

/-- A call collects the threads to wait for; if somebody else has, it returns. -/
def collect (call : Nat) : Option Scheduler :=
  match s.closings[call]? with
  | some { caller, stage := .aborted, isFirst } =>
    let c := if s.isCollected then { caller, stage := .returned, isFirst }
      else { caller, stage := .waiting, isFirst := true }
    some { s with closings := s.closings.set call c }
  | _ => none

/-- Whether the workers have ended, but for the one that waits for the others. -/
def hasEnded (caller : Option Nat) : Bool :=
  (List.range s.hands.length).all fun worker => caller = some worker || s.hand worker = .ended

/-- A call returns that has waited for the threads. -/
def leave (call : Nat) : Option Scheduler :=
  match s.closings[call]? with
  | some { caller, stage := .waiting, isFirst } =>
    if s.hasEnded caller then
      some { s with closings := s.closings.set call { caller, stage := .returned, isFirst } }
    else none
  | _ => none

inductive Action where
  | submit (now delay : Duration) (period : Option Duration)
  | cancel (job : Nat)
  | fire (now : Duration)
  | take (worker : Nat)
  | check (worker : Nat)
  | start (worker : Nat)
  | finish (worker : Nat)
  | recheck (worker : Nat)
  | renew (worker : Nat) (now : Duration)
  | shutDown (caller : Option Nat)
  | abort (call : Nat)
  | collect (call : Nat)
  | leave (call : Nat)
  deriving DecidableEq, Repr

def step : Action → Option Scheduler
  | .submit now delay period => some (s.submit now delay period).scheduler
  | .cancel job => some (s.cancel job)
  | .fire now => s.fire now
  | .take worker => s.take worker
  | .check worker => s.check worker
  | .start worker => s.start worker
  | .finish worker => s.finish worker
  | .recheck worker => s.recheck worker
  | .renew worker now => s.renew worker now
  | .shutDown caller => s.shutDown caller
  | .abort call => s.abort call
  | .collect call => s.collect call
  | .leave call => s.leave call

/-- Performs steps one after another, as long as they are possible. -/
def run : List Action → Scheduler → Option Scheduler
  | [], s => some s
  | a :: as, s => (s.step a).bind (run as)

/-- Shuts down a scheduler that is at rest: the workers end as soon as they see it. -/
def close : Scheduler :=
  let call := s.closings.length
  let ends := (List.range s.hands.length).map Action.take
  (run (.shutDown none :: .abort call :: ends ++ [.collect call, .leave call]) s).getD s

end Scheduler

end Behavior
