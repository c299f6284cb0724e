import Behavior.Random.Weighted
import Behavior.Tree.Frame
/-!
# Execution

Executing a node evaluates its guard, runs the node if the guard holds, and records the result. How a
node runs is a function of its kind and of the runner of its children, so that every child is executed
with its own guard and record.
-/

namespace Behavior

/-- Executes a node on a frame. -/
abbrev Runner (χ : Type) := NodeId → Frame χ → Status × Frame χ

namespace BehaviorTree

variable {χ : Type} (t : BehaviorTree χ) (scene : Scene)

/-! ## Forgetting subtrees -/

/-- Forgets everything about a node and its descendants. -/
def reset (id : NodeId) (f : Frame χ) : Frame χ :=
  (t.subtree id).foldl (·.forgetTraced scene ·) f

/-- Forgets everything about the subtree of a node that is being executed. The node's own status is about
to be recorded anew, so losing that one is not traced. -/
def resetBelow (id : NodeId) (f : Frame χ) : Frame χ :=
  match t.subtree id with
  | [] => f
  | self :: below => below.foldl (·.forgetTraced scene ·) (f.forget scene self)

def resetAll (ids : List NodeId) (f : Frame χ) : Frame χ := ids.foldl (fun f id => t.reset scene id f) f

/-! ## Composites -/

variable (run : Runner χ)

/-- Runs the children from index `i` on until one does not succeed; `last` is the result before them. A
failure forgets the whole subtree, an exception leaves the selection as it is. -/
def sequenceFrom (id : NodeId) : (i : Nat) → List NodeId → (last : Status) → Frame χ → Status × Frame χ
  | _, [], last, f => (last, t.resetBelow scene id f)
  | i, c :: cs, _, f =>
    let (s, f) := run c f
    match s with
    | .running => (.running, f.setSelected scene id (some i))
    | .cannotExecute | .failed => (s, t.resetBelow scene id f)
    | .exception => (.exception, f)
    | .unknown | .finished => sequenceFrom id (i + 1) cs s f

/-- Runs the children in order, from the remembered one on. -/
def sequence (id : NodeId) (children : List NodeId) (f : Frame χ) : Status × Frame χ :=
  let start := (f.selected scene id).getD 0
  t.sequenceFrom scene run id start (children.drop start) .finished f

/-- Tries the children from index `i` on until one neither fails nor is refused, and forgets each one that
is done. The second result is the children that were not tried. -/
def priorityFrom (id : NodeId) : (i : Nat) → List NodeId → Frame χ → Status × List NodeId × Frame χ
  | _, [], f => (.finished, [], f)
  | i, c :: cs, f =>
    let (s, f) := run c f
    match s with
    | .running => (.running, cs, f.setSelected scene id (some i))
    | .cannotExecute | .failed =>
      priorityFrom id (i + 1) cs ((t.reset scene c f).setSelected scene id none)
    | .unknown | .finished | .exception => (s, cs, t.reset scene c (f.setSelected scene id none))

/-- Runs the first child that can execute, from the remembered one on; all children that are not tried
are forgotten. -/
def prioritySelector (id : NodeId) (children : List NodeId) (f : Frame χ) : Status × Frame χ :=
  let start := min ((f.selected scene id).getD 0) children.length
  let f := t.resetAll scene (children.take start) f
  let (s, untried, f) := t.priorityFrom scene run id start (children.drop start) f
  (s, t.resetAll scene untried f)

/-- Runs the children in the given order and forgets each one that is done. The last child that failed or
was refused decides the result. -/
def runEach : List NodeId → (overall : Status) → Frame χ → Status × Frame χ
  | [], overall, f => (overall, f)
  | c :: cs, overall, f =>
    let (s, f) := run c f
    if s.isRunning then runEach cs overall f
    else runEach cs (if s.isFailure then s else overall) (t.reset scene c f)

/-- Runs all children in a random order. -/
def randomSelector (id : NodeId) (children : List NodeId) (f : Frame χ) : Status × Frame χ :=
  let order := ((scene.tick.generator scene.entity (UInt64.ofNat id)).shuffle children).1
  t.runEach scene run order .finished f

/-- The weights of `n` children; those beyond the list weigh 1. -/
def weightsFor (weights : List Float32) (n : Nat) : List Float32 :=
  (List.range n).map fun i => weights[i]?.getD 1

/-- The remembered child, if there is one and it was left running. -/
def resumable? (id : NodeId) (children : List NodeId) (f : Frame χ) : Option Nat :=
  (f.selected scene id).filter fun i =>
    match children[i]? with
    | some c => (f.status scene c).isRunning
    | none => false

/-- The child that a choice by weight falls on at this tick. -/
def choice? (id : NodeId) (weights : List Float32) (children : List NodeId) : Option Nat :=
  ((scene.tick.generator scene.entity (UInt64.ofNat id)).chooseWeighted
    (weightsFor weights children.length)).1

/-- Runs one child: the one left running, or one chosen by weight; the others are forgotten. -/
def probabilitySelector (id : NodeId) (weights : List Float32) (children : List NodeId) (f : Frame χ) :
    Status × Frame χ :=
  match (resumable? scene id children f).or (choice? scene id weights children) with
  | none => (.failed, f)
  | some chosen =>
    let f := t.resetAll scene (children.eraseIdx chosen) f
    match children[chosen]? with
    | none => (.failed, f)
    | some c =>
      let (s, f) := run c f
      if s.isRunning then (s, f.setSelected scene id (some chosen))
      else (s, t.reset scene c (f.setSelected scene id none))

/-- Runs the children in order and forgets each one that is done; tells whether any is running. -/
def parallelFrom : List NodeId → (running : Bool) → Frame χ → Bool × Frame χ
  | [], running, f => (running, f)
  | c :: cs, running, f =>
    let (s, f) := run c f
    if s.isRunning then parallelFrom cs true f else parallelFrom cs running (t.reset scene c f)

/-- Runs every child; done when none of them is running. -/
def parallel (id : NodeId) (children : List NodeId) (f : Frame χ) : Status × Frame χ :=
  match t.parallelFrom scene run children false f with
  | (true, f) => (.running, f)
  | (false, f) => (.finished, t.resetBelow scene id f)

/-! ## Decorators and leaves -/

/-- Runs the only child and maps its result; without a child the node fails. -/
def decorate (map : Status → Status) (children : List NodeId) (f : Frame χ) : Status × Frame χ :=
  match children.head? with
  | some c =>
    let (s, f) := run c f
    (map s, f)
  | none => (.failed, f)

/-- Swaps success and failure. -/
def inverted : Status → Status
  | .finished => .failed
  | .failed => .finished
  | s => s

/-- Any child that is done counts as this result. -/
def settledAs (result : Status) (s : Status) : Status := if s.isRunning then s else result

/-- Runs the only child unless it has completed often enough. -/
def limit (id : NodeId) (amount : UInt32) (children : List NodeId) (f : Frame χ) : Status × Frame χ :=
  match children.head? with
  | none => (.failed, f)
  | some c =>
    if amount ≤ f.memory.completions id scene.entity then (.failed, f)
    else
      let (s, f) := run c f
      (s, if s.isRunning then f else f.complete scene id)

/-- Runs a leaf. A failure is reported, traced, and ends there: it is the node's result and nothing
else's. -/
def runTask (id : NodeId) (task : Task χ) (f : Frame χ) : Status × Frame χ :=
  let r := f.memory.getD id scene.entity
  let context : TaskContext :=
    { scene, node := id, firstRun := !r.status.isRunning, filtered := f.memory.filtered }
  let f := f.note (.called context f.character r.timer f.board)
  let (outcome, w) := task context
    { character := f.character, timer := r.timer, board := f.board, journal := f.journal }
  let f := { f with
    character := w.character, memory := f.memory.setTimer id scene.entity w.timer
    board := w.board, journal := w.journal }
  match outcome.result with
  | .ok s => (s, f)
  | .error fault =>
    let f := { f with journal := f.journal ++ [Entry.taskFault scene.entity id fault] }
    (.exception, f.trace (.taskFault scene.tick.number scene.entity id))

/-! ## Nodes -/

def perform (id : NodeId) (s : Slot χ) (f : Frame χ) : Status × Frame χ :=
  match s.kind with
  | .sequence => t.sequence scene run id s.children f
  | .prioritySelector => t.prioritySelector scene run id s.children f
  | .probabilitySelector weights => t.probabilitySelector scene run id weights s.children f
  | .randomSelector => t.randomSelector scene run id s.children f
  | .parallel => t.parallel scene run id s.children f
  | .invert => decorate run inverted s.children f
  | .succeed => decorate run (settledAs .finished) s.children f
  | .fail => decorate run (settledAs .failed) s.children f
  | .limit amount => limit scene run id amount s.children f
  | .task task => runTask scene id task f

variable [Character χ]

def judge (id : NodeId) (s : Slot χ) (f : Frame χ) : Bool × Frame χ :=
  let (allowed, w) := s.condition.evaluate scene f.board f.watch
  (allowed, (f.withWatch w).note (.began id allowed))

def attempt (id : NodeId) (s : Slot χ) (f : Frame χ) : Status × Frame χ :=
  let (allowed, f) := judge scene id s f
  if allowed then t.perform scene run id s f else (.cannotExecute, f)

/-- Evaluates the guard of a node, runs the node if it holds, and records the result. -/
def visit (id : NodeId) (s : Slot χ) (f : Frame χ) : Status × Frame χ :=
  let (status, g) := t.attempt scene run id s f
  (status, (g.record scene id (f.status scene id) status).note (.ended id status))

/-- Executes a node with at most `depth` levels; an id past the end of the tree changes nothing. -/
def executeTo : (depth : Nat) → Runner χ
  | 0, _, f => (.unknown, f)
  | depth + 1, id, f =>
    match t.slot? id with
    | none => (.unknown, f)
    | some s => t.visit scene (executeTo depth) id s f

/-- Executes a node. Children have greater ids than their parents, so below a node there are never more
levels than ids. -/
def execute (id : NodeId) (f : Frame χ) : Status × Frame χ := t.executeTo scene (t.size - id) id f

end BehaviorTree

end Behavior
