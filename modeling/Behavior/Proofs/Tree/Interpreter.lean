import Behavior.Tree.Execution
/-!
# An interpreter on the hierarchy

The same behaviour told without an arena and without ids as keys: what a node remembers stands at the
node, a child is reached through its parent, and forgetting a subtree is recursion over it. The index in
pre-order only names a node in the random streams, to leaves, and in what is traced. What a node makes of the
statuses of its children is written out here, case by case.
-/

namespace Behavior

variable {χ : Type}

/-- What a node and its descendants remember for one entity. -/
structure Recall where
  record : NodeRecord := {}
  completions : UInt32 := 0
  inner : List Recall := []

/-- What an execution may change apart from what nodes remember. -/
structure World (χ : Type) where
  character : χ
  board : Blackboard := {}
  filtered : List EntityId := []
  received : List TraceEvent := []
  journal : List Entry := []
  steps : List (Step χ) := []

namespace World

variable (w : World χ)

def note (s : Step χ) : World χ := { w with steps := w.steps ++ [s] }

def trace (e : TraceEvent) : World χ :=
  { w with board := Trace.record w.board e, received := w.received ++ Trace.sent w.board e }

/-- Traces that the status of a node changed, if it did. -/
def traceChange (scene : Scene) (id : NodeId) (previous status : Status) : World χ :=
  if previous = status then w else w.trace (.nodeStatus scene.tick.number scene.entity id status)

end World

/-- A node in its world. -/
structure Site (χ : Type) where
  recalled : Recall
  world : World χ

namespace Site

variable (x : Site χ)

def select (i : Option Nat) : Site χ :=
  { x with recalled := { x.recalled with record := { x.recalled.record with selected := i } } }

def complete : Site χ :=
  let n := x.recalled.completions
  { x with recalled := { x.recalled with completions := if n = 0xFFFFFFFF then n else n + 1 } }

/-- Puts what became of a child in its place. -/
def withChild (i : Nat) (y : Site χ) : Site χ :=
  { recalled := { x.recalled with inner := x.recalled.inner.set i y.recalled }, world := y.world }

def childStatus (i : Nat) : Status := ((x.recalled.inner[i]?.map (·.record.status)).getD .unknown)

end Site

/-- What a parent can do with a child. -/
structure Child (χ : Type) where
  run : Site χ → Status × Site χ
  forget : Site χ → Site χ

/-! ## Forgetting -/

namespace TreeNode

mutual

/-- Nothing remembered. -/
def blank : TreeNode χ → Recall
  | ⟨_, _, _, children⟩ => { inner := blankAll children }

def blankAll : List (TreeNode χ) → List Recall
  | [] => []
  | n :: ns => n.blank :: blankAll ns

end

mutual

/-- Forgets the records of a node and its descendants, but not how often they have completed. -/
def forget (scene : Scene) (id : NodeId) : TreeNode χ → Site χ → Site χ
  | ⟨_, _, _, children⟩, ⟨r, w⟩ =>
    let (inner, w) :=
      forgetAll scene (id + 1) children r.inner (w.traceChange scene id r.record.status .unknown)
    ⟨{ r with record := {}, inner }, w⟩

/-- Forgets several subtrees, the first with the index `id`. -/
def forgetAll (scene : Scene) (id : NodeId) :
    List (TreeNode χ) → List Recall → World χ → List Recall × World χ
  | n :: ns, r :: rs, w =>
    let x := n.forget scene id ⟨r, w⟩
    let (rs, w) := forgetAll scene (id + n.count) ns rs x.world
    (x.recalled :: rs, w)
  | _, rs, w => (rs, w)

end

end TreeNode

/-! ## Composites -/

namespace Site

variable (kids : List (Child χ)) (scene : Scene) (id : NodeId)

/-- Runs a child in its place. -/
def runChild (i : Nat) (x : Site χ) : Status × Site χ :=
  match kids[i]?, x.recalled.inner[i]? with
  | some k, some r =>
    let (s, y) := k.run ⟨r, x.world⟩
    (s, x.withChild i y)
  | _, _ => (.unknown, x)

def forgetChild (i : Nat) (x : Site χ) : Site χ :=
  match kids[i]?, x.recalled.inner[i]? with
  | some k, some r => x.withChild i (k.forget ⟨r, x.world⟩)
  | _, _ => x

def forgetChildren (is : List Nat) (x : Site χ) : Site χ := is.foldl (fun x i => forgetChild kids i x) x

/-- Forgets everything about a node that is being run, and about its descendants. -/
def clear (x : Site χ) : Site χ :=
  forgetChildren kids (List.range kids.length) { x with recalled := { x.recalled with record := {} } }

def sequenceOn : List Nat → (last : Status) → Site χ → Status × Site χ
  | [], last, x => (last, clear kids x)
  | i :: is, _, x =>
    let (s, x) := runChild kids i x
    match s with
    | .running => (.running, x.select (some i))
    | .cannotExecute | .failed => (s, clear kids x)
    | .exception => (.exception, x)
    | .unknown | .finished => sequenceOn is s x

def sequence (x : Site χ) : Status × Site χ :=
  sequenceOn kids ((List.range kids.length).drop (x.recalled.record.selected.getD 0)) .finished x

/-- Runs children until one neither fails nor is refused; forgets those that are done and those left. -/
def priorityOn : List Nat → Site χ → Status × Site χ
  | [], x => (.finished, x)
  | i :: is, x =>
    let (s, x) := runChild kids i x
    match s with
    | .running => (.running, forgetChildren kids is (x.select (some i)))
    | .cannotExecute | .failed => priorityOn is ((forgetChild kids i x).select none)
    | .unknown | .finished | .exception => (s, forgetChildren kids is (forgetChild kids i (x.select none)))

def prioritySelector (x : Site χ) : Status × Site χ :=
  let start := min (x.recalled.record.selected.getD 0) kids.length
  let indices := List.range kids.length
  priorityOn kids (indices.drop start) (forgetChildren kids (indices.take start) x)

def runEach : List Nat → (overall : Status) → Site χ → Status × Site χ
  | [], overall, x => (overall, x)
  | i :: is, overall, x =>
    let (s, x) := runChild kids i x
    match s with
    | .running => runEach is overall x
    | .cannotExecute | .failed => runEach is s (forgetChild kids i x)
    | .unknown | .finished | .exception => runEach is overall (forgetChild kids i x)

/-- The random stream of a node at this tick. -/
def stream : Generator := scene.tick.generator scene.entity (UInt64.ofNat id)

def randomSelector (x : Site χ) : Status × Site χ :=
  runEach kids ((stream scene id).shuffle (List.range kids.length)).1 .finished x

/-- Runs one child: the one left running, or one chosen by weight; the others are forgotten. -/
def probabilitySelector (weights : List Float32) (x : Site χ) : Status × Site χ :=
  let resumed := x.recalled.record.selected.filter fun i => x.childStatus i = .running
  let weights := (List.range kids.length).map fun i => weights[i]?.getD 1
  match resumed.or ((stream scene id).chooseWeighted weights).1 with
  | none => (.failed, x)
  | some chosen =>
    let x := forgetChildren kids ((List.range kids.length).eraseIdx chosen) x
    if chosen < kids.length then
      let (s, x) := runChild kids chosen x
      match s with
      | .running => (.running, x.select (some chosen))
      | _ => (s, forgetChild kids chosen (x.select none))
    else (.failed, x)

/-- Runs children and forgets each one that is done; tells whether any is running. -/
def parallelOn : List Nat → (running : Bool) → Site χ → Bool × Site χ
  | [], running, x => (running, x)
  | i :: is, running, x =>
    let (s, x) := runChild kids i x
    match s with
    | .running => parallelOn is true x
    | _ => parallelOn is running (forgetChild kids i x)

def parallel (x : Site χ) : Status × Site χ :=
  match parallelOn kids (List.range kids.length) false x with
  | (true, x) => (.running, x)
  | (false, x) => (.finished, clear kids x)

/-! ## Decorators and leaves -/

def decorate (map : Status → Status) (x : Site χ) : Status × Site χ :=
  if kids.isEmpty then (.failed, x)
  else
    let (s, x) := runChild kids 0 x
    (map s, x)

def limit (amount : UInt32) (x : Site χ) : Status × Site χ :=
  if kids.isEmpty || amount ≤ x.recalled.completions then (.failed, x)
  else
    let (s, x) := runChild kids 0 x
    match s with
    | .running => (.running, x)
    | _ => (s, x.complete)

def call (task : Task χ) (x : Site χ) : Status × Site χ :=
  let r := x.recalled.record
  let context : TaskContext :=
    { scene, node := id, firstRun := r.status ≠ .running, filtered := x.world.filtered }
  let w := x.world.note (.called context x.world.character r.timer x.world.board)
  let (outcome, v) := task context
    { character := w.character, timer := r.timer, board := w.board, journal := w.journal }
  let x : Site χ :=
    { recalled := { x.recalled with record := { r with timer := v.timer } }
      world := { w with character := v.character, board := v.board, journal := v.journal } }
  match outcome.result with
  | .ok s => (s, x)
  | .error fault =>
    let w := { x.world with journal := x.world.journal ++ [Entry.taskFault scene.entity id fault] }
    (.exception, { x with world := w.trace (.taskFault scene.tick.number scene.entity id) })

/-! ## Nodes -/

def perform (kind : NodeKind χ) (x : Site χ) : Status × Site χ :=
  match kind with
  | .sequence => sequence kids x
  | .prioritySelector => prioritySelector kids x
  | .probabilitySelector weights => probabilitySelector kids scene id weights x
  | .randomSelector => randomSelector kids scene id x
  | .parallel => parallel kids x
  | .invert => decorate kids (fun | .finished => .failed | .failed => .finished | s => s) x
  | .succeed => decorate kids (fun | .running => .running | _ => .finished) x
  | .fail => decorate kids (fun | .running => .running | _ => .failed) x
  | .limit amount => limit kids amount x
  | .task task => call scene id task x

def judge [Character χ] (condition : Condition χ) (x : Site χ) : Bool × Site χ :=
  let (allowed, v) := condition.evaluate scene x.world.board ⟨x.world.character, x.world.filtered⟩
  let w := { x.world with character := v.character, filtered := v.filtered }
  (allowed, { x with world := w.note (.began id allowed) })

/-- Records the result of a node that had this status before. -/
def record (previous status : Status) (x : Site χ) : Site χ :=
  let r := { x.recalled.record with status, lastExecuted := some scene.tick.time }
  { recalled := { x.recalled with record := r }
    world := (x.world.traceChange scene id previous status).note (.ended id status) }

end Site

namespace TreeNode

variable [Character χ]

mutual

/-- Executes a node that has the index `id`. -/
def interpret (scene : Scene) (id : NodeId) : TreeNode χ → Site χ → Status × Site χ
  | ⟨_, condition, kind, children⟩, x =>
    let (allowed, y) := x.judge scene id condition
    let (status, y) :=
      if allowed then y.perform (offspring scene (id + 1) children) scene id kind else (.cannotExecute, y)
    (status, y.record scene id x.recalled.record.status status)

/-- Several nodes as the children of another, the first with the index `id`. -/
def offspring (scene : Scene) (id : NodeId) : List (TreeNode χ) → List (Child χ)
  | [] => []
  | n :: ns =>
    { run := n.interpret scene id, forget := n.forget scene id } :: offspring scene (id + n.count) ns

end

theorem interpret_eq {scene : Scene} {id : NodeId} {n : TreeNode χ} {x : Site χ} : n.interpret scene id x =
    let (allowed, y) := x.judge scene id n.condition
    let (status, y) :=
      if allowed then y.perform (offspring scene (id + 1) n.children) scene id n.kind else (.cannotExecute, y)
    (status, y.record scene id x.recalled.record.status status) := by
  cases n; rfl

end TreeNode

end Behavior
