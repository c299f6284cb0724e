import Behavior.Scheduler
import Behavior.Table
/-!
# Jobs in rehearsal

A scheduler with jobs that only count their runs, and a clock that jumps from deadline to deadline. Nothing
runs until somebody waits for it.
-/

namespace Behavior

/-- What a rehearsed job is for. -/
structure JobScript where
  tag : String
  /-- How often a periodic job runs before it cancels itself. -/
  runs : Option Nat := none
  /-- The job is due so late that nobody waits for it. -/
  isDistant : Bool := false
  deriving DecidableEq, Repr

/-- A scheduler with the scripts of its jobs and what they have done. -/
structure JobRehearsal where
  scheduler : Scheduler
  now : Duration := ⟨0⟩
  scripts : Table Nat JobScript := {}
  /-- How often each job ran. -/
  runs : Table Nat Nat := {}
  /-- The tags of the runs of jobs without a period, in order. -/
  order : List String := []

namespace JobRehearsal

variable (r : JobRehearsal)

/-- The delay of distant jobs: an hour. -/
def distance : Duration := .ofMillis 3600000

/-- Submits a job: its number if it was accepted. -/
def submit (script : JobScript) (period : Option Duration) : Option Nat × JobRehearsal :=
  let delay := if script.isDistant then distance else ⟨0⟩
  let submission := r.scheduler.submit r.now delay period
  let r := { r with scheduler := submission.scheduler }
  if submission.accepted then
    (some submission.job, { r with scripts := r.scripts.insert submission.job script })
  else (none, r)

/-- Carries out a run of a job. -/
def perform (job : Nat) : JobRehearsal :=
  let count := (r.runs.get? job).getD 0 + 1
  let r := { r with runs := r.runs.insert job count }
  match r.scripts.get? job with
  | none => r
  | some script =>
    match script.runs with
    | none => { r with order := r.order ++ [script.tag] }
    | some runs => if count = runs then { r with scheduler := r.scheduler.cancel job } else r

/-- The next step of a worker. -/
def work? (worker : Nat) : Option JobRehearsal :=
  let after (s : Option Scheduler) : Option JobRehearsal := s.map fun scheduler => { r with scheduler }
  match r.scheduler.hand worker with
  | .free => if r.scheduler.ready.isEmpty then none else after (r.scheduler.take worker)
  | .taken _ => after (r.scheduler.check worker)
  | .cleared _ => after (r.scheduler.start worker)
  | .running due =>
    let r := r.perform due.job
    (r.scheduler.finish worker).map fun scheduler => { r with scheduler }
  | .ran _ => after (r.scheduler.recheck worker)
  | .renewing _ => after (r.scheduler.renew worker r.now)
  | .ended => none

/-- The first deadline of a job that is not distant. -/
def nextDeadline? : Option Duration :=
  let near := r.scheduler.timers.filter fun t => !((r.scripts.get? t.job).any (·.isDistant))
  (Scheduler.first? near).map (·.deadline)

/-- The next step of anybody: of a worker, of the timer, or of the clock. -/
def next? : Option JobRehearsal :=
  match (List.range r.scheduler.hands.length).findSome? r.work? with
  | some r => some r
  | none =>
    match r.scheduler.fire r.now with
    | some scheduler => some { r with scheduler }
    | none => r.nextDeadline?.map fun deadline => { r with now := deadline.max r.now }

/-- Goes on until nothing is due. -/
def settle : Nat → JobRehearsal → JobRehearsal
  | 0, r => r
  | fuel + 1, r =>
    match r.next? with
    | some r => settle fuel r
    | none => r

/-- Waits for all jobs that are not distant; a run takes at most eight steps. -/
def wait : JobRehearsal :=
  let runs := r.scripts.entries.foldl (fun n (_, script) => n + script.runs.getD 1 + 1) 0
  r.settle (8 * runs + 1)

/-- Shuts the scheduler down when nothing is due. -/
def shutDown : JobRehearsal :=
  let r := r.wait
  { r with scheduler := r.scheduler.close }

/-- The tags of the runs of jobs without a period: in order if there is one worker, sorted otherwise. -/
def shownOrder : List String :=
  if r.scheduler.hands.length ≤ 1 then r.order else r.order.mergeSort

/-- How often the jobs of each tag ran, for tags that ran at all. -/
def counts : Table String Nat :=
  r.runs.entries.foldl (fun t (job, count) =>
    match r.scripts.get? job with
    | some script => t.insert script.tag ((t.get? script.tag).getD 0 + count)
    | none => t) {}

/-- The job that was submitted last under a tag. -/
def tagged? (tag : String) : Option Job :=
  (r.scripts.entries.reverse.find? (·.2.tag == tag)).bind fun (job, _) => r.scheduler.job? job

end JobRehearsal

end Behavior
