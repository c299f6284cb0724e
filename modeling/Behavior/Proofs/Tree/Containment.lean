import Behavior.Proofs.Trace.Untraced
import Behavior.Proofs.Tree.Lockstep
import Behavior.Proofs.Tree.Tracing
/-!
# Faults are contained

A leaf that fails or panics counts as one that reports an exception, and beyond that the fault shows in the
trace only. So the tree goes exactly as the one whose leaves report the exceptions themselves, and what it
tells more is one event for each fault, between the call of the leaf and the change of its status
(`BehaviorTree.IgnoresTrace.exists_shadows`).
-/

namespace Behavior

variable {χ : Type}

/-! ## Leaves that report their faults as exceptions -/

/-- Does what the task does, and reports an exception where that one fails or panics. -/
def Task.contained (task : Task χ) : Task χ := fun context w =>
  let (outcome, w) := task context w
  match outcome.result with
  | .ok s => (.status s, w)
  | .error _ => (.status .exception, w)

def NodeKind.contained : NodeKind χ → NodeKind χ
  | .task work => .task work.contained
  | kind => kind

def Slot.contained (s : Slot χ) : Slot χ := { s with kind := s.kind.contained }

theorem Slot.contained_of_composite {s : Slot χ} (h : ∀ task, s.kind ≠ .task task) : s.contained = s := by
  obtain ⟨label, condition, kind, children, stop⟩ := s
  cases kind with
  | task task => exact absurd rfl (h task)
  | _ => rfl

namespace BehaviorTree

def contained (t : BehaviorTree χ) : BehaviorTree χ := { t with slots := t.slots.map Slot.contained }

variable {t : BehaviorTree χ} {id : NodeId}

theorem slot?_contained : t.contained.slot? id = (t.slot? id).map Slot.contained := by
  simp [slot?, contained]

theorem subtree_contained : t.contained.subtree id = t.subtree id := by
  simp only [subtree, slot?_contained]
  cases t.slot? id <;> rfl

theorem size_contained : t.contained.size = t.size := by simp [size, contained]

def Faults (t : BehaviorTree χ) (context : TaskContext) (w : Workspace χ) : Prop :=
  ∃ s task fault, t.slot? context.node = some s ∧ s.kind = .task task ∧ (task context w).1.result = .error fault

/-- Tasks and conditions neither read nor change the trace. -/
structure IgnoresTrace [Character χ] (t : BehaviorTree χ) : Prop where
  leaves {id : NodeId} {s task} : t.slot? id = some s → s.kind = .task task → task.LeavesTrace
  tasks {id : NodeId} {s task} : t.slot? id = some s → s.kind = .task task → task.IgnoresTrace
  conditions {id : NodeId} {s} : t.slot? id = some s → s.condition.IgnoresTrace

end BehaviorTree

/-! ## The story of both executions -/

/-- What happens at a time, for an onlooker who cannot see the trace but knows which leaves fail: a guard is
evaluated or a leaf called that does not fail, the result of a node is recorded, a status is forgotten, or a
leaf is called and fails and the exception is recorded as its result. -/
inductive Passage (χ : Type) where
  | step (s : Step χ)
  | ended (tick : UInt64) (entity : EntityId) (node : NodeId) (status : Status) (changes : Bool)
  | forgotten (tick : UInt64) (entity : EntityId) (node : NodeId)
  | fault (context : TaskContext) (character : χ) (timer : Int64) (board : Blackboard) (changes : Bool)

namespace Passage

def steps : Passage χ → List (Step χ)
  | step s => [s]
  | ended _ _ node status _ => [.ended node status]
  | forgotten .. => []
  | fault context character timer board _ =>
    [.called context character timer board, .ended context.node .exception]

/-- The events that tell of it if faults are not told. -/
def quiet : Passage χ → List TraceEvent
  | step _ => []
  | ended tick entity node status changes => if changes then [.nodeStatus tick entity node status] else []
  | forgotten tick entity node => [.nodeStatus tick entity node .unknown]
  | fault context _ _ _ changes =>
    if changes then [.nodeStatus context.scene.tick.number context.scene.entity context.node .exception] else []

/-- The events that tell of it: a fault comes directly before the change of status that it brings. -/
def loud (p : Passage χ) : List TraceEvent :=
  match p with
  | fault context _ _ _ _ => .taskFault context.scene.tick.number context.scene.entity context.node :: p.quiet
  | p => p.quiet

/-- The leaves that fail are those that the tree has fail. -/
def Fits (t : BehaviorTree χ) : Passage χ → Prop
  | step (.called context character timer board) => ¬t.Faults context { character, timer, board }
  | step (.ended ..) => False
  | fault context character timer board _ => t.Faults context { character, timer, board }
  | _ => True

end Passage

open Behavior.Frame

/-- An execution with faults and one with exceptions in their place: for the given audiences the first frame is
where the story has led loudly, and the second where it has led quietly. -/
structure Shadows (t : BehaviorTree χ) (loudly quietly : Audience) (story : List (Passage χ)) (f g : Frame χ) :
    Prop where
  character : f.character = g.character
  memory : f.memory = g.memory
  board : f.board.untraced = g.board.untraced
  steps : f.steps.map Step.untraced = story.flatMap Passage.steps
  steps' : g.steps.map Step.untraced = story.flatMap Passage.steps
  fits : ∀ p ∈ story, p.Fits t
  loud : loudly.Hears (story.flatMap Passage.loud) f.audience
  quiet : quietly.Hears (story.flatMap Passage.quiet) g.audience

abbrev Shadowed (t : BehaviorTree χ) (loudly quietly : Audience) (f g : Frame χ) : Prop :=
  ∃ story, Shadows t loudly quietly story f g

namespace Shadows

variable {t : BehaviorTree χ} {loudly quietly : Audience} {story : List (Passage χ)} {scene : Scene}
  {f g f' g' : Frame χ} {n : NodeId}

theorem extend (h : Shadows t loudly quietly story f g) (more : List (Passage χ))
    (character : f'.character = g'.character) (memory : f'.memory = g'.memory)
    (board : f'.board.untraced = g'.board.untraced)
    (steps : f'.steps.map Step.untraced = f.steps.map Step.untraced ++ more.flatMap Passage.steps)
    (steps' : g'.steps.map Step.untraced = g.steps.map Step.untraced ++ more.flatMap Passage.steps)
    (fits : ∀ p ∈ more, p.Fits t) (loud : f.audience.Hears (more.flatMap Passage.loud) f'.audience)
    (quiet : g.audience.Hears (more.flatMap Passage.quiet) g'.audience) :
    Shadows t loudly quietly (story ++ more) f' g' where
  character := character
  memory := memory
  board := board
  steps := by rw [steps, h.steps, List.flatMap_append]
  steps' := by rw [steps', h.steps', List.flatMap_append]
  fits p hp := (List.mem_append.mp hp).elim (h.fits p) (fits p)
  loud := by
    rw [List.flatMap_append]
    exact h.loud.trans loud
  quiet := by
    rw [List.flatMap_append]
    exact h.quiet.trans quiet

theorem withMemory (h : Shadows t loudly quietly story f g) {m m' : Memory} (hm : m = m') :
    Shadows t loudly quietly story { f with memory := m } { g with memory := m' } where
  character := h.character
  memory := hm
  board := h.board
  steps := h.steps
  steps' := h.steps'
  fits := h.fits
  loud := h.loud
  quiet := h.quiet

theorem note (h : Shadows t loudly quietly story f g) {s : Step χ} (hfits : (Passage.step s.untraced).Fits t)
    {s' : Step χ} (hs : s'.untraced = s.untraced) :
    Shadows t loudly quietly (story ++ [.step s.untraced]) (f.note s) (g.note s') := by
  refine h.extend [_] h.character h.memory h.board ?_ ?_ (by simpa using hfits) .refl .refl
  · simp [Passage.steps]
  · simp [Passage.steps, hs]

theorem forgotten (h : Shadows t loudly quietly story f g) :
    Shadows t loudly quietly (story ++ [.forgotten scene.tick.number scene.entity n])
      (f.trace (.nodeStatus scene.tick.number scene.entity n .unknown))
      (g.trace (.nodeStatus scene.tick.number scene.entity n .unknown)) := by
  refine h.extend [_] h.character h.memory ?_ ?_ ?_ (by simp [Passage.Fits]) .trace .trace
  · simpa [Frame.trace] using h.board
  · simp [Passage.steps]
  · simp [Passage.steps]

theorem exists_forgetTraced (h : Shadows t loudly quietly story f g) :
    Shadowed t loudly quietly (f.forgetTraced scene n) (g.forgetTraced scene n) := by
  have hstatus : f.status scene n = g.status scene n := by rw [Frame.status, Frame.status, h.memory]
  simp only [forgetTraced, hstatus]
  split
  · exact ⟨_, h.withMemory (by rw [h.memory])⟩
  · exact ⟨_, (h.withMemory (by rw [h.memory])).forgotten⟩

theorem lockstep :
    BehaviorTree.Lockstep t t.contained scene (Shadowed t loudly quietly) where
  subtree _ := BehaviorTree.subtree_contained.symm
  memory := fun ⟨_, h⟩ => h.memory
  forget := fun ⟨_, h⟩ => ⟨_, h.withMemory (by rw [h.memory])⟩
  forgetTraced := fun ⟨_, h⟩ => h.exists_forgetTraced
  setSelected := fun ⟨_, h⟩ => ⟨_, h.withMemory (by rw [h.memory])⟩
  complete := fun ⟨_, h⟩ => ⟨_, h.withMemory (by rw [h.memory])⟩

end Shadows

/-! ## Leaves -/

namespace Frame

variable (f : Frame χ) (scene : Scene) (n : NodeId)

def workspace : Workspace χ where
  character := f.character
  timer := (f.memory.getD n scene.entity).timer
  board := f.board
  journal := f.journal

/-- The frame after a task has been called and has left this behind. -/
def worked (w : Workspace χ) : Frame χ :=
  { f.note (.called (BehaviorTree.taskContext scene n f) f.character (f.memory.getD n scene.entity).timer f.board) with
    character := w.character, memory := f.memory.setTimer n scene.entity w.timer
    board := w.board, journal := w.journal }

def faulted (fault : Fault) : Frame χ :=
  { f with journal := f.journal ++ [Entry.taskFault scene.entity n fault] }.trace
    (.taskFault scene.tick.number scene.entity n)

variable {f scene n} {w : Workspace χ} {fault : Fault}

@[simp] theorem character_faulted : (f.faulted scene n fault).character = f.character := rfl

@[simp] theorem memory_faulted : (f.faulted scene n fault).memory = f.memory := rfl

@[simp] theorem untraced_board_faulted : (f.faulted scene n fault).board.untraced = f.board.untraced := by
  simp [faulted, trace]

@[simp] theorem steps_faulted : (f.faulted scene n fault).steps = f.steps := rfl

theorem hears_faulted :
    f.audience.Hears [.taskFault scene.tick.number scene.entity n] (f.faulted scene n fault).audience :=
  .trace (f := { f with journal := f.journal ++ [Entry.taskFault scene.entity n fault] })

@[simp] theorem character_worked : (f.worked scene n w).character = w.character := rfl

@[simp] theorem memory_worked : (f.worked scene n w).memory = f.memory.setTimer n scene.entity w.timer := rfl

@[simp] theorem board_worked : (f.worked scene n w).board = w.board := rfl

@[simp] theorem steps_worked :
    (f.worked scene n w).steps =
      f.steps ++ [.called (BehaviorTree.taskContext scene n f) f.character
        (f.memory.getD n scene.entity).timer f.board] := rfl

end Frame

namespace BehaviorTree

variable {t : BehaviorTree χ} {scene : Scene} {id : NodeId} {task : Task χ} {f : Frame χ}

/-- What becomes of the result of a node that has been attempted. -/
def conclude (scene : Scene) (id : NodeId) (previous : Status) (r : Status × Frame χ) : Status × Frame χ :=
  (r.1, (r.2.record scene id previous r.1).note (.ended id r.1))

section Conclude

variable {previous status : Status}

@[simp] theorem character_conclude : (conclude scene id previous (status, f)).2.character = f.character := by
  simp only [conclude, Frame.note, Frame.record]
  split <;> rfl

@[simp] theorem memory_conclude :
    (conclude scene id previous (status, f)).2.memory =
      f.memory.update id scene.entity fun r => { r with status, lastExecuted := some scene.tick.time } := by
  simp [conclude]

@[simp] theorem untraced_board_conclude :
    (conclude scene id previous (status, f)).2.board.untraced = f.board.untraced := by
  simp only [conclude, Frame.note, Frame.record]
  split
  · rfl
  · exact Blackboard.untraced_record

@[simp] theorem steps_conclude :
    (conclude scene id previous (status, f)).2.steps = f.steps ++ [.ended id status] := by
  simp [conclude]

theorem hears_conclude :
    f.audience.Hears
      (if decide (previous ≠ status) then [.nodeStatus scene.tick.number scene.entity id status] else [])
      (conclude scene id previous (status, f)).2.audience := by
  simp only [conclude, Frame.note, Frame.record]
  by_cases h : previous = status
  · simp only [h, ne_eq, not_true, decide_false, if_true]
    exact .refl
  · simp only [h, ne_eq, not_false_eq_true, decide_true, if_true, if_false]
    exact .trace

end Conclude

def work (scene : Scene) (id : NodeId) (task : Task χ) (f : Frame χ) : Outcome × Workspace χ :=
  task (taskContext scene id f) (f.workspace scene id)

theorem runTask_eq :
    runTask scene id task f =
      match (work scene id task f).1.result with
      | .ok s => (s, f.worked scene id (work scene id task f).2)
      | .error fault =>
        (.exception, (f.worked scene id (work scene id task f).2).faulted scene id fault) := rfl

theorem work_contained :
    work scene id task.contained f =
      (.status ((work scene id task f).1.result.toOption.getD .exception), (work scene id task f).2) := by
  simp only [work, Task.contained]
  cases (task _ _).1.result <;> rfl

theorem runTask_contained :
    runTask scene id task.contained f =
      ((work scene id task f).1.result.toOption.getD .exception, f.worked scene id (work scene id task f).2) := by
  rw [runTask_eq, work_contained]
  rfl

variable [Character χ] {s : Slot χ}

theorem IgnoresTrace.faults_iff (ht : t.IgnoresTrace) (hs : t.slot? id = some s) (hk : s.kind = .task task) :
    t.Faults (taskContext scene id f) (f.workspace scene id).untraced ↔
      ∃ fault, (work scene id task f).1.result = .error fault := by
  rw [work, (ht.tasks hs hk _ _).1]
  constructor
  · rintro ⟨s', task', fault, hs', hk', hfault⟩
    cases hs.symm.trans hs'
    cases hk.symm.trans hk'
    exact ⟨fault, hfault⟩
  · rintro ⟨fault, hfault⟩
    exact ⟨s, task, fault, hs, hk, hfault⟩

end BehaviorTree

open BehaviorTree

namespace Shadows

variable {t : BehaviorTree χ} {loudly quietly : Audience} {story : List (Passage χ)} {scene : Scene}
  {f g : Frame χ} {id : NodeId} {s : Slot χ} {task : Task χ} {previous : Status}

theorem taskContext_eq (h : Shadows t loudly quietly story f g) :
    taskContext scene id f = taskContext scene id g := by
  simp only [taskContext, Frame.status, h.memory]

theorem workspace_eq (h : Shadows t loudly quietly story f g) :
    (f.workspace scene id).untraced = (g.workspace scene id).untraced := by
  simp only [workspace, Workspace.untraced, h.character, h.memory, h.board]

theorem work_eq (h : Shadows t loudly quietly story f g) (ignores : task.IgnoresTrace) (scene : Scene)
    (id : NodeId) :
    (work scene id task f).1 = (work scene id task g).1 ∧
      (work scene id task f).2.untraced = (work scene id task g).2.untraced := by
  rw [work, work, h.taskContext_eq]
  exact ignores.congr h.workspace_eq

theorem concluded (h : Shadows t loudly quietly story f g) {status : Status} :
    Shadows t loudly quietly
      (story ++ [.ended scene.tick.number scene.entity id status (decide (previous ≠ status))])
      (conclude scene id previous (status, f)).2 (conclude scene id previous (status, g)).2 := by
  refine h.extend [_] ?_ ?_ ?_ ?_ ?_ (List.forall_mem_singleton.mpr trivial) ?_ ?_
  · simp [h.character]
  · simp [h.memory]
  · simp [h.board]
  · simp [Passage.steps, Step.untraced]
  · simp [Passage.steps, Step.untraced]
  · rw [List.flatMap_singleton]
    exact hears_conclude
  · rw [List.flatMap_singleton]
    exact hears_conclude

theorem exists_conclude (h : Shadows t loudly quietly story f g) {status : Status} :
    Together (Shadowed t loudly quietly) (conclude scene id previous (status, f))
      (conclude scene id previous (status, g)) :=
  ⟨_, _, _, rfl, rfl, _, h.concluded⟩

/-- The same call of a leaf has led from the first two frames to the others. -/
structure Calls (called : Step χ) (f g f' g' : Frame χ) : Prop where
  character : f'.character = g'.character
  memory : f'.memory = g'.memory
  board : f'.board.untraced = g'.board.untraced
  steps : f'.steps.map Step.untraced = f.steps.map Step.untraced ++ [called]
  steps' : g'.steps.map Step.untraced = g.steps.map Step.untraced ++ [called]
  loud : f.audience.Hears [] f'.audience
  quiet : g.audience.Hears [] g'.audience

theorem calls (h : Shadows t loudly quietly story f g) (leaves : task.LeavesTrace) (ignores : task.IgnoresTrace)
    (scene : Scene) (id : NodeId) :
    Calls (.called (taskContext scene id f) f.character (f.memory.getD id scene.entity).timer f.board.untraced) f g
      (f.worked scene id (work scene id task f).2) (g.worked scene id (work scene id task g).2) := by
  obtain ⟨character, timer, board⟩ := Workspace.untraced_eq_iff.mp (h.work_eq ignores scene id).2
  have hears {f : Frame χ} : f.audience.Hears [] (f.worked scene id (work scene id task f).2).audience :=
    .of_slots (leaves _ _).1 (leaves _ _).2 rfl
  exact
    { character, board, loud := hears, quiet := hears
      memory := by rw [memory_worked, memory_worked, h.memory, timer]
      steps := by simp [Step.untraced]
      steps' := by simp [Step.untraced, h.taskContext_eq, h.character, h.memory, h.board] }

variable {context : TaskContext} {character : χ} {timer : Int64} {board : Blackboard} {f' g' : Frame χ}

theorem answered (h : Shadows t loudly quietly story f g)
    (hcalls : Calls (.called context character timer board) f g f' g')
    (hanswers : ¬t.Faults context { character, timer, board }) :
    Shadows t loudly quietly (story ++ [.step (.called context character timer board)]) f' g' :=
  h.extend [_] hcalls.character hcalls.memory hcalls.board hcalls.steps hcalls.steps'
    (List.forall_mem_singleton.mpr hanswers) hcalls.loud hcalls.quiet

theorem faulted (h : Shadows t loudly quietly story f g)
    (hcalls : Calls (.called context character timer board) f g f' g')
    (hfaults : t.Faults context { character, timer, board }) {fault : Fault} :
    Shadows t loudly quietly
      (story ++ [.fault context character timer board (decide (previous ≠ .exception))])
      (conclude context.scene context.node previous
        (.exception, f'.faulted context.scene context.node fault)).2
      (conclude context.scene context.node previous (.exception, g')).2 := by
  refine h.extend [_] ?_ ?_ ?_ ?_ ?_ (List.forall_mem_singleton.mpr hfaults) ?_ ?_
  · simp [hcalls.character]
  · simp [hcalls.memory]
  · simp [hcalls.board]
  · simp [hcalls.steps, Passage.steps, Step.untraced]
  · simp [hcalls.steps', Passage.steps, Step.untraced]
  · rw [List.flatMap_singleton]
    exact hcalls.loud.trans (hears_faulted.trans hears_conclude)
  · rw [List.flatMap_singleton]
    exact hcalls.quiet.trans hears_conclude

variable [Character χ]

theorem exists_leaf (h : Shadows t loudly quietly story f g) (ht : t.IgnoresTrace) (hs : t.slot? id = some s)
    (hk : s.kind = .task task) :
    Together (Shadowed t loudly quietly)
      (conclude scene id previous (runTask scene id task f))
      (conclude scene id previous (runTask scene id task.contained g)) := by
  have houtcome := (h.work_eq (ht.tasks hs hk) scene id).1
  have hcalls := h.calls (ht.leaves hs hk) (ht.tasks hs hk) scene id
  have hfaults : t.Faults (taskContext scene id f) (f.workspace scene id).untraced ↔
      ∃ fault, (work scene id task f).1.result = .error fault := ht.faults_iff hs hk
  cases hr : (work scene id task f).1.result with
  | ok status =>
      rw [runTask_eq, runTask_contained, hr, ← houtcome, hr]
      refine exists_conclude (h.answered hcalls fun hfault => ?_)
      obtain ⟨fault, hfault⟩ := hfaults.mp hfault
      cases hr.symm.trans hfault
  | error fault =>
      rw [runTask_eq, runTask_contained, hr, ← houtcome, hr]
      exact ⟨_, _, _, rfl, rfl, _, h.faulted hcalls (hfaults.mpr ⟨fault, hr⟩)⟩

/-! ## Nodes -/

theorem exists_judge (h : Shadows t loudly quietly story f g) (ignores : s.condition.IgnoresTrace) :
    Together (Shadowed t loudly quietly) (judge scene id s f) (judge scene id s.contained g) := by
  have hwatch : f.watch = g.watch := by rw [watch, watch, h.character, h.memory]
  have hevaluate : s.condition.evaluate scene f.board f.watch = s.condition.evaluate scene g.board g.watch := by
    rw [hwatch, ignores.congr h.board]
  simp only [judge, Slot.contained, hevaluate]
  generalize s.condition.evaluate scene g.board g.watch = r
  have hseen : Shadows t loudly quietly story (f.withWatch r.2) (g.withWatch r.2) :=
    { character := rfl, memory := by rw [withWatch, withWatch, h.memory], board := h.board, steps := h.steps
      steps' := h.steps', fits := h.fits, loud := h.loud, quiet := h.quiet }
  exact ⟨_, _, _, rfl, rfl, _, hseen.note (s := .began id r.1) trivial rfl⟩

theorem visit_eq {run : Runner χ} :
    t.visit scene run id s f = conclude scene id (f.status scene id) (t.attempt scene run id s f) := rfl

theorem exists_visit (h : Shadows t loudly quietly story f g) (ht : t.IgnoresTrace) (hs : t.slot? id = some s)
    {run run' : Runner χ}
    (hrun : ∀ c ∈ s.children, ∀ {f g}, Shadowed t loudly quietly f g →
      Together (Shadowed t loudly quietly) (run c f) (run' c g)) :
    Together (Shadowed t loudly quietly) (t.visit scene run id s f)
      (t.contained.visit scene run' id s.contained g) := by
  have hstatus : f.status scene id = g.status scene id := lockstep.status ⟨_, h⟩
  obtain ⟨allowed, f, g, hf, hg, _, h⟩ := h.exists_judge (ht.conditions hs)
  rw [visit_eq, visit_eq, hstatus, attempt, attempt, hf, hg]
  cases allowed with
  | false => exact h.exists_conclude
  | true =>
      -- the two trees differ in their leaves only
      by_cases hleaf : ∃ task, s.kind = .task task
      · obtain ⟨task, hk⟩ := hleaf
        have hk' : s.contained.kind = .task task.contained := by rw [Slot.contained, hk, NodeKind.contained]
        simp only [if_true, perform, hk, hk']
        exact h.exists_leaf ht hs hk
      · rw [Slot.contained_of_composite fun task hk => hleaf ⟨task, hk⟩]
        have hperform : Together (Shadowed t loudly quietly) (t.perform scene run id s f)
            (t.contained.perform scene run' id s g) :=
          lockstep.perform hrun (fun task hk => hleaf ⟨task, hk⟩) ⟨_, h⟩
        obtain ⟨status, f, g, hf, hg, _, h⟩ := hperform
        simp only [if_true, hf, hg]
        exact h.exists_conclude

theorem exists_executeTo (h : Shadows t loudly quietly story f g) (ht : t.IgnoresTrace) {depth : Nat} :
    Together (Shadowed t loudly quietly) (t.executeTo scene depth id f)
      (t.contained.executeTo scene depth id g) := by
  induction depth generalizing id f g story with
  | zero => exact ⟨_, _, _, rfl, rfl, _, h⟩
  | succ depth ih =>
      simp only [executeTo, slot?_contained]
      cases hs : t.slot? id with
      | none => exact ⟨_, _, _, rfl, rfl, _, h⟩
      | some s =>
          refine h.exists_visit ht hs ?_
          rintro c - f g ⟨story, h⟩
          exact ih h

end Shadows

/-- A tree and the one with its faults contained go the same way. -/
theorem BehaviorTree.IgnoresTrace.exists_shadows [Character χ] {t : BehaviorTree χ} (ht : t.IgnoresTrace)
    {scene : Scene} {id : NodeId} {f g : Frame χ} (hcharacter : f.character = g.character)
    (hmemory : f.memory = g.memory) (hboard : f.board.untraced = g.board.untraced) (hsteps : f.steps = [])
    (hsteps' : g.steps = []) :
    ∃ story, (t.execute scene id f).1 = (t.contained.execute scene id g).1 ∧
      Shadows t f.audience g.audience story (t.execute scene id f).2 (t.contained.execute scene id g).2 := by
  have h : Shadows t f.audience g.audience [] f g :=
    { character := hcharacter, memory := hmemory, board := hboard, steps := by simp [hsteps]
      steps' := by simp [hsteps'], fits := by simp, loud := .refl, quiet := .refl }
  have hexecute : Together (Shadowed t f.audience g.audience) (t.execute scene id f)
      (t.contained.execute scene id g) := by
    rw [execute, execute, size_contained]
    exact h.exists_executeTo ht
  obtain ⟨status, f', g', hf, hg, story, h⟩ := hexecute
  rw [hf, hg]
  exact ⟨story, rfl, h⟩

end Behavior
