import Behavior.Tree.Frame
/-!
# Apart from the trace

What is left of a blackboard, and of what a task works on, without the trace; tasks and conditions that take
no notice of it; and the events that have reached whoever listens.
-/

namespace Behavior

variable {χ : Type}

/-! ## Without the trace -/

namespace Blackboard

/-- The board without the slots of the log and the sink. -/
def untraced (b : Blackboard) : Blackboard := ⟨(b.slots.erase Trace.logKey.id).erase Trace.sinkKey.id⟩

variable {b b' : Blackboard} {id : UInt64} {e : TraceEvent}

theorem getElem?_untraced :
    b.untraced.slots[id]? = if id = Trace.logKey.id ∨ id = Trace.sinkKey.id then none else b.slots[id]? := by
  simp only [untraced, Std.ExtTreeMap.getElem?_erase, Std.LawfulEqCmp.compare_eq_iff_eq]
  by_cases hlog : id = Trace.logKey.id
  · simp [hlog]
  · simp [hlog, Ne.symm hlog, eq_comm]

theorem untraced_eq_iff :
    b.untraced = b'.untraced ↔
      ∀ id, id ≠ Trace.logKey.id → id ≠ Trace.sinkKey.id → b.slots[id]? = b'.slots[id]? := by
  constructor
  · intro h id hlog hsink
    have hslot := congrArg (·.slots[id]?) h
    simpa [getElem?_untraced, hlog, hsink] using hslot
  · intro h
    refine congrArg Blackboard.mk (Std.ExtTreeMap.ext_getElem? fun id => ?_)
    show b.untraced.slots[id]? = b'.untraced.slots[id]?
    rw [getElem?_untraced, getElem?_untraced]
    split
    · rfl
    · next hid => exact h id (fun hlog => hid (.inl hlog)) fun hsink => hid (.inr hsink)

@[simp] theorem untraced_untraced : b.untraced.untraced = b.untraced :=
  untraced_eq_iff.mpr fun id hlog hsink => by simp [getElem?_untraced, hlog, hsink]

@[simp] theorem untraced_record : (Trace.record b e).untraced = b.untraced := by
  refine untraced_eq_iff.mpr fun id hlog _ => ?_
  simp only [Trace.record, modify]
  split
  · simp [insert, Std.ExtTreeMap.getElem?_insert, Ne.symm hlog]
  · rfl

section Store

variable {α : Type} [Storable α] {key : Key α}

theorem untraced_insert {v : α} (h : key.id = Trace.logKey.id ∨ key.id = Trace.sinkKey.id) :
    (b.insert key v).untraced = b.untraced := by
  refine untraced_eq_iff.mpr fun id hlog hsink => ?_
  have hne : key.id ≠ id := by rintro rfl; exact h.elim hlog hsink
  simp [insert, Std.ExtTreeMap.getElem?_insert, hne]

theorem untraced_erase (h : key.id = Trace.logKey.id ∨ key.id = Trace.sinkKey.id) :
    (b.erase key).untraced = b.untraced := by
  refine untraced_eq_iff.mpr fun id hlog hsink => ?_
  have hne : key.id ≠ id := by rintro rfl; exact h.elim hlog hsink
  simp only [erase]
  split
  · simp [Std.ExtTreeMap.getElem?_erase, hne]
  · rfl

end Store

end Blackboard

def Workspace.untraced (w : Workspace χ) : Workspace χ := { w with board := w.board.untraced, journal := [] }

theorem Workspace.untraced_eq_iff {w w' : Workspace χ} :
    w.untraced = w'.untraced ↔
      w.character = w'.character ∧ w.timer = w'.timer ∧ w.board.untraced = w'.board.untraced := by
  simp [untraced]

@[simp] theorem Workspace.untraced_untraced {w : Workspace χ} : w.untraced.untraced = w.untraced := by
  simp [untraced]

def Step.untraced : Step χ → Step χ
  | .called context character timer board => .called context character timer board.untraced
  | s => s

/-! ## Taking no notice of the trace -/

/-- What a task does, apart from the trace and the journal, does not depend on these. -/
def Task.IgnoresTrace (task : Task χ) : Prop :=
  ∀ context w, (task context w).1 = (task context w.untraced).1 ∧
    (task context w).2.untraced = (task context w.untraced).2.untraced

theorem Task.IgnoresTrace.congr {task : Task χ} (h : task.IgnoresTrace) {context : TaskContext} {w w' : Workspace χ}
    (hw : w.untraced = w'.untraced) :
    (task context w).1 = (task context w').1 ∧ (task context w).2.untraced = (task context w').2.untraced := by
  obtain ⟨houtcome, hwork⟩ := h context w
  obtain ⟨houtcome', hwork'⟩ := h context w'
  rw [houtcome, hwork, houtcome', hwork', hw]
  exact ⟨rfl, rfl⟩

/-- What evaluating a condition gives does not depend on the trace. -/
def Condition.IgnoresTrace [Character χ] (c : Condition χ) : Prop :=
  ∀ scene board w, c.evaluate scene board w = c.evaluate scene board.untraced w

theorem Condition.IgnoresTrace.congr [Character χ] {c : Condition χ} (h : c.IgnoresTrace) {scene : Scene}
    {b b' : Blackboard} (hb : b.untraced = b'.untraced) {w : Watch χ} :
    c.evaluate scene b w = c.evaluate scene b' w := by
  rw [h scene b w, h scene b' w, hb]

/-! ## Who listens -/

/-- Those to whom trace events go: the log, if there is one, and the sink with what it has received. -/
structure Audience where
  board : Blackboard
  received : List TraceEvent

def Frame.audience (f : Frame χ) : Audience := ⟨f.board, f.received⟩

/-- Meanwhile exactly these events have gone to whoever listens. -/
structure Audience.Hears (before : Audience) (events : List TraceEvent) (after : Audience) : Prop where
  log : after.board.get? Trace.logKey =
    (before.board.get? Trace.logKey).map fun log => ⟨log.events ++ events⟩
  sink : after.board.contains Trace.sinkKey = before.board.contains Trace.sinkKey
  received : after.received = before.received ++ if before.board.contains Trace.sinkKey then events else []

namespace Audience.Hears

variable {a b c : Audience} {events events' : List TraceEvent} {e : TraceEvent}

theorem refl : a.Hears [] a where
  log := by simp
  sink := rfl
  received := by simp

theorem trans (h : a.Hears events b) (h' : b.Hears events' c) : a.Hears (events ++ events') c where
  log := by
    rw [h'.log, h.log, Option.map_map]
    simp [Function.comp_def]
  sink := h'.sink.trans h.sink
  received := by
    rw [h'.received, h.received, h.sink]
    split <;> simp

theorem of_slots (hlog : b.board.slots[Trace.logKey.id]? = a.board.slots[Trace.logKey.id]?)
    (hsink : b.board.slots[Trace.sinkKey.id]? = a.board.slots[Trace.sinkKey.id]?)
    (hreceived : b.received = a.received) : a.Hears [] b where
  log := by
    rw [Blackboard.get?_congr hlog]
    simp
  sink := by rw [Blackboard.contains, Blackboard.contains, Blackboard.get?_congr hsink]
  received := by simp [hreceived]

theorem trace {f : Frame χ} : f.audience.Hears [e] (f.trace e).audience where
  log := by
    simp only [Frame.audience, Frame.trace, Trace.record, Blackboard.get?_modify_self]
    rfl
  sink := by
    simp only [Frame.audience, Frame.trace, Trace.record, Blackboard.contains]
    rw [Blackboard.get?_modify_of_ne (by decide)]
  received := rfl

end Audience.Hears

end Behavior
