import Behavior.Trace
import Behavior.Tree.Arena
/-!
# Frames

Everything that the execution of a tree may change, and the steps in which it changes it.
-/

namespace Behavior

/-- One step of an execution, as an onlooker sees it. -/
inductive Step (χ : Type) where
  /-- The guard of a node has been evaluated; the node runs if it holds. -/
  | began (node : NodeId) (allowed : Bool)
  /-- A leaf is called with what it can read and what it may change. -/
  | called (context : TaskContext) (character : χ) (timer : Int64) (board : Blackboard)
  /-- The result of a node has been recorded. -/
  | ended (node : NodeId) (status : Status)

/-- The state of the character, the memory and the blackboard of one agent, the trace events that its sink
has received, the entries that an execution adds to the journal, and the steps it has taken. -/
structure Frame (χ : Type) where
  character : χ
  memory : Memory
  board : Blackboard
  received : List TraceEvent := []
  journal : List Entry := []
  steps : List (Step χ) := []

namespace Frame

variable {χ : Type} (f : Frame χ) (scene : Scene) (n : NodeId)

/-- The part of a frame that conditions may change. -/
def watch : Watch χ := ⟨f.character, f.memory.filtered⟩

/-- A frame with that part replaced. -/
def withWatch (w : Watch χ) : Frame χ :=
  { f with character := w.character, memory := { f.memory with filtered := w.filtered } }

def note (s : Step χ) : Frame χ := { f with steps := f.steps ++ [s] }

/-- Delivers a trace event to whoever listens. -/
def trace (e : TraceEvent) : Frame χ :=
  { f with board := Trace.record f.board e, received := f.received ++ Trace.sent f.board e }

def status : Status := f.memory.status n scene.entity

/-- The child at which a node resumes. -/
def selected : Option Nat := f.memory.selected n scene.entity

/-- Remembers the child at which a node resumes, or that it resumes at none. -/
def setSelected (i : Option Nat) : Frame χ :=
  { f with memory := f.memory.setSelected n scene.entity i }

/-- Counts a completion of a limited node. -/
def complete : Frame χ := { f with memory := f.memory.complete n scene.entity }

/-- Records the result of a node's execution and the time of it; a status that differs from the previous
one is traced. -/
def record (previous status : Status) : Frame χ :=
  let f := { f with
    memory := f.memory.update n scene.entity fun r =>
      { r with status, lastExecuted := some scene.tick.time } }
  if previous = status then f
  else f.trace (.nodeStatus scene.tick.number scene.entity n status)

/-- Forgets the record of a node without a trace. -/
def forget : Frame χ := { f with memory := f.memory.forget n scene.entity }

/-- Forgets the record of a node; losing a status is traced. -/
def forgetTraced : Frame χ :=
  let recorded := f.status scene n
  let f := f.forget scene n
  if recorded = .unknown then f
  else f.trace (.nodeStatus scene.tick.number scene.entity n .unknown)

/-! ## What a change leaves alone -/

variable {f scene n}

@[simp] theorem memory_note {s : Step χ} : (f.note s).memory = f.memory := rfl

@[simp] theorem steps_note {s : Step χ} : (f.note s).steps = f.steps ++ [s] := rfl

@[simp] theorem memory_trace {e : TraceEvent} : (f.trace e).memory = f.memory := rfl

@[simp] theorem steps_trace {e : TraceEvent} : (f.trace e).steps = f.steps := rfl

@[simp] theorem memory_setSelected {i : Option Nat} :
    (f.setSelected scene n i).memory = f.memory.setSelected n scene.entity i := rfl

@[simp] theorem steps_setSelected {i : Option Nat} : (f.setSelected scene n i).steps = f.steps := rfl

@[simp] theorem memory_complete : (f.complete scene n).memory = f.memory.complete n scene.entity := rfl

@[simp] theorem steps_complete : (f.complete scene n).steps = f.steps := rfl

@[simp] theorem memory_record {previous status : Status} :
    (f.record scene n previous status).memory = f.memory.update n scene.entity fun r =>
      { r with status, lastExecuted := some scene.tick.time } := by
  simp only [record]
  split <;> rfl

@[simp] theorem steps_record {previous status : Status} : (f.record scene n previous status).steps = f.steps := by
  simp only [record]
  split <;> rfl

@[simp] theorem memory_forget : (f.forget scene n).memory = f.memory.forget n scene.entity := rfl

@[simp] theorem steps_forget : (f.forget scene n).steps = f.steps := rfl

@[simp] theorem memory_forgetTraced : (f.forgetTraced scene n).memory = f.memory.forget n scene.entity := by
  simp only [forgetTraced]
  split <;> rfl

@[simp] theorem steps_forgetTraced : (f.forgetTraced scene n).steps = f.steps := by
  simp only [forgetTraced]
  split <;> rfl

theorem status_eq : f.status scene n = f.memory.status n scene.entity := rfl

theorem selected_eq : f.selected scene n = f.memory.selected n scene.entity := rfl

end Frame

end Behavior
