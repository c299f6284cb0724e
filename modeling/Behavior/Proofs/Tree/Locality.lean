import Behavior.Proofs.Tree.Acts
/-!
# Executions stay in their subtree

Executing a node changes records and counts of its subtree only, for one entity only, and takes steps that
regard the subtree only. A leaf that it calls learns whether it was left running before the execution: no
node's record is touched before its node is run.
-/

namespace Behavior

variable {χ : Type}

namespace Memory

/-- Two memories hold the same about a node for an entity. -/
def Agree (m m' : Memory) (n : NodeId) (e : EntityId) : Prop :=
  m.get? n e = m'.get? n e ∧ m.completions n e = m'.completions n e

variable {m m' m'' : Memory} {n : NodeId} {e : EntityId}

theorem Agree.refl : m.Agree m n e := ⟨rfl, rfl⟩

theorem Agree.trans (h : m.Agree m' n e) (h' : m'.Agree m'' n e) : m.Agree m'' n e :=
  ⟨h.1.trans h'.1, h.2.trans h'.2⟩

theorem getD_congr (h : m.get? n e = m'.get? n e) : m.getD n e = m'.getD n e := by rw [getD_eq, getD_eq, h]

theorem status_congr (h : m.get? n e = m'.get? n e) : m.status n e = m'.status n e := by
  simp only [status_eq_get?, h]

theorem Agree.status (h : m.Agree m' n e) : m.status n e = m'.status n e := status_congr h.1

theorem selected_congr (h : m.get? n e = m'.get? n e) : m.selected n e = m'.selected n e := by
  simp only [selected_eq_get?, h]

theorem selected_of_none (h : m.get? n e = none) : m.selected n e = none := by
  rw [selected_eq_get?, h]
  rfl

theorem Agree.selected (h : m.Agree m' n e) : m.selected n e = m'.selected n e := selected_congr h.1

variable {k : NodeId} {e' : EntityId}

theorem agree_update {f : NodeRecord → NodeRecord} (h : ¬(n = k ∧ e = e')) : (m.update k e' f).Agree m n e :=
  ⟨get?_update_of_ne h, rfl⟩

theorem agree_setSelected {i : Option Nat} (h : ¬(n = k ∧ e = e')) : (m.setSelected k e' i).Agree m n e :=
  ⟨by simp [get?_setSelected, h], completions_setSelected⟩

theorem agree_complete (h : ¬(n = k ∧ e = e')) : (m.complete k e').Agree m n e :=
  ⟨rfl, by simp [completions_complete, h]⟩

theorem agree_forget (h : ¬(n = k ∧ e = e')) : (m.forget k e').Agree m n e :=
  ⟨by simp [get?_forget, h], rfl⟩

theorem agree_resetState {χ : Type} {t : BehaviorTree χ} (h : ¬(n ∈ t.subtree k ∧ e = e')) :
    (t.resetState k e' m).Agree m n e :=
  ⟨by simp [BehaviorTree.get?_resetState, h], BehaviorTree.completions_resetState⟩

end Memory

/-- The node that a step regards. -/
def Step.node : Step χ → NodeId
  | .began n _ | .ended n _ => n
  | .called context .. => context.node

/-- If the step calls a leaf, then as one that was not left running in this frame, or as one that was. -/
def Step.FirstRunIn (scene : Scene) (f : Frame χ) : Step χ → Prop
  | .called context .. => context.firstRun = !(f.status scene context.node).isRunning
  | _ => True

theorem Step.FirstRunIn.congr {scene : Scene} {f g : Frame χ} {s : Step χ} (h : s.FirstRunIn scene g)
    (agree : g.memory.Agree f.memory s.node scene.entity) : s.FirstRunIn scene f := by
  cases s with
  | called context _ _ _ =>
      have agree : g.memory.status context.node _ = f.memory.status context.node _ := agree.status
      simp only [FirstRunIn, Frame.status] at h ⊢
      rw [h, agree]
  | _ => trivial

namespace BehaviorTree

/-- Between the two frames nothing happened but in the subtree of a node. -/
structure Within (t : BehaviorTree χ) (scene : Scene) (id : NodeId) (f g : Frame χ) : Prop where
  agree : ∀ n e, ¬(n ∈ t.subtree id ∧ e = scene.entity) → g.memory.Agree f.memory n e
  steps : ∃ new, g.steps = f.steps ++ new ∧ ∀ s ∈ new, s.node ∈ t.subtree id ∧ s.FirstRunIn scene f

variable {t : BehaviorTree χ} {scene : Scene} {run : Runner χ} {id : NodeId} {f g : Frame χ}

theorem Within.refl : t.Within scene id f f := ⟨fun _ _ _ => .refl, [], by simp, by simp⟩

theorem agree_resetAll {n e} {cs : List NodeId} (h : ∀ c ∈ cs, ¬(n ∈ t.subtree c ∧ e = scene.entity)) :
    (t.resetAll scene cs f).memory.Agree f.memory n e := by
  induction cs generalizing f with
  | nil => exact .refl
  | cons c cs ih =>
      rw [resetAll_cons]
      refine (ih fun c' hc' => h c' (by simp [hc'])).trans ?_
      rw [memory_reset]
      exact Memory.agree_resetState (h c (by simp))

/-! ## Acts -/

/-- What the acts of a node keep if its children's executions stay in their subtrees: a child that was not
touched is as it was. -/
theorem Acts.within (nested : t.Nested) {id : Nat} {s : Slot χ} (hs : t.slot? id = some s)
    (children : ∀ c ∈ s.children, ∀ g, t.Within scene c g (run c g).2) {used : List NodeId}
    (h : t.Acts scene run id s.children f used g) :
    t.Within scene id f g ∧
      ∀ c ∈ s.children, c ∉ used → ∀ n ∈ t.subtree c, g.memory.Agree f.memory n scene.entity := by
  have hself := nested.mem_self hs
  induction h with
  | start => exact ⟨.refl, fun _ _ _ _ _ => .refl⟩
  | @run used g c _ hc hnew ih =>
      obtain ⟨ih, fresh⟩ := ih
      have hrun := children c hc g
      refine ⟨⟨fun n e hn => ?_, ?_⟩, fun c' hc' hnew' n hn => ?_⟩
      · exact (hrun.agree n e fun hin => hn ⟨(nested.below hs hc hin.1).2, hin.2⟩).trans (ih.agree n e hn)
      · obtain ⟨new, hsteps, hall⟩ := ih.steps
        obtain ⟨new', hsteps', hall'⟩ := hrun.steps
        refine ⟨new ++ new', by rw [hsteps', hsteps, List.append_assoc], fun st hst => ?_⟩
        rcases List.mem_append.mp hst with hst | hst
        · exact hall st hst
        · obtain ⟨hnode, hfirst⟩ := hall' st hst
          exact ⟨(nested.below hs hc hnode).2, hfirst.congr (fresh c hc hnew _ hnode)⟩
      · have hout : n ∉ t.subtree c := fun hin => hnew' (by simp [nested.apart hs hc hc' hin hn])
        exact (hrun.agree n _ fun hin => hout hin.1).trans
          (fresh c' hc' (fun hin => hnew' (by simp [hin])) n hn)
  | @reset used g c _ hc ih =>
      obtain ⟨ih, fresh⟩ := ih
      refine ⟨⟨fun n e hn => ?_, by simpa using ih.steps⟩, fun c' hc' hnew' n hn => ?_⟩
      · rw [memory_reset]
        exact (Memory.agree_resetState fun hin => hn ⟨(nested.below hs hc hin.1).2, hin.2⟩).trans
          (ih.agree n e hn)
      · have hout : n ∉ t.subtree c := fun hin => hnew' (by simp [nested.apart hs hc hc' hin hn])
        rw [memory_reset]
        exact (Memory.agree_resetState fun hin => hout hin.1).trans
          (fresh c' hc' (fun hin => hnew' (by simp [hin])) n hn)
  | @resetBelow used g _ ih =>
      obtain ⟨ih, _⟩ := ih
      refine ⟨⟨fun n e hn => ?_, by simpa using ih.steps⟩, fun c' hc' hnew' => absurd (by simp [hc']) hnew'⟩
      rw [memory_resetBelow]
      exact (Memory.agree_resetState hn).trans (ih.agree n e hn)
  | @select used g i _ ih =>
      obtain ⟨ih, fresh⟩ := ih
      refine ⟨⟨fun n e hn => ?_, ih.steps⟩, fun c hc hnew n hn => ?_⟩
      · have hne : ¬(n = id ∧ e = scene.entity) := by rintro ⟨rfl, rfl⟩; exact hn ⟨hself, rfl⟩
        exact (Memory.agree_setSelected hne).trans (ih.agree n e hn)
      · have hne : ¬(n = id ∧ scene.entity = scene.entity) := fun h =>
          Nat.lt_irrefl id (h.1 ▸ (nested.below hs hc hn).1)
        exact (Memory.agree_setSelected hne).trans (fresh c hc hnew n hn)
  | @complete used g _ ih =>
      obtain ⟨ih, fresh⟩ := ih
      refine ⟨⟨fun n e hn => ?_, ih.steps⟩, fun c hc hnew n hn => ?_⟩
      · have hne : ¬(n = id ∧ e = scene.entity) := by rintro ⟨rfl, rfl⟩; exact hn ⟨hself, rfl⟩
        exact (Memory.agree_complete hne).trans (ih.agree n e hn)
      · have hne : ¬(n = id ∧ scene.entity = scene.entity) := fun h =>
          Nat.lt_irrefl id (h.1 ▸ (nested.below hs hc hn).1)
        exact (Memory.agree_complete hne).trans (fresh c hc hnew n hn)

/-! ## Leaves -/

/-- What a leaf can read when it is called. -/
def taskContext (scene : Scene) (id : NodeId) (f : Frame χ) : TaskContext where
  scene
  node := id
  firstRun := !(f.status scene id).isRunning
  filtered := f.memory.filtered

theorem steps_runTask {task : Task χ} :
    (runTask scene id task f).2.steps =
      f.steps ++ [.called (taskContext scene id f) f.character (f.memory.getD id scene.entity).timer f.board] := by
  simp only [runTask]
  split <;> rfl

theorem memory_runTask {task : Task χ} :
    ∃ timer, (runTask scene id task f).2.memory = f.memory.setTimer id scene.entity timer := by
  simp only [runTask]
  split
  · exact ⟨_, rfl⟩
  · exact ⟨_, rfl⟩

/-! ## Nodes -/

variable {s : Slot χ}

theorem within_perform (nested : t.Nested) {id : Nat} (hs : t.slot? id = some s)
    (children : ∀ c ∈ s.children, ∀ g, t.Within scene c g (run c g).2) :
    t.Within scene id f (t.perform scene run id s f).2 := by
  have hself := nested.mem_self hs
  by_cases hk : ∃ task, s.kind = .task task
  · obtain ⟨task, hk⟩ := hk
    simp only [perform, hk]
    refine ⟨fun n e hn => ?_, _, steps_runTask, by simp [Step.node, taskContext, Step.FirstRunIn, hself]⟩
    obtain ⟨timer, hm⟩ := @memory_runTask _ scene id f task
    rw [hm]
    exact Memory.agree_update (by rintro ⟨rfl, rfl⟩; exact hn ⟨hself, rfl⟩)
  · obtain ⟨used, h⟩ := perform_acts (fun task hk' => hk ⟨task, hk'⟩) (nested.nodup hs)
    exact (h.within nested hs children).1

variable [Character χ]

theorem agree_judge {n e} : (judge scene id s f).2.memory.Agree f.memory n e := .refl

theorem steps_judge : (judge scene id s f).2.steps = f.steps ++ [.began id (judge scene id s f).1] := rfl

theorem within_attempt (nested : t.Nested) {id : Nat} (hs : t.slot? id = some s)
    (children : ∀ c ∈ s.children, ∀ g, t.Within scene c g (run c g).2) :
    t.Within scene id f (t.attempt scene run id s f).2 := by
  have hr : t.Within scene id (judge scene id s f).2 (t.attempt scene run id s f).2 := by
    simp only [attempt]
    split
    · exact within_perform nested hs children
    · exact .refl
  obtain ⟨new, hsteps, hall⟩ := hr.steps
  refine ⟨fun n e hn => (hr.agree n e hn).trans agree_judge, .began id (judge scene id s f).1 :: new,
    by rw [hsteps, steps_judge, List.append_assoc, List.singleton_append], fun st hst => ?_⟩
  rcases List.mem_cons.mp hst with rfl | hst
  · exact ⟨nested.mem_self hs, trivial⟩
  · exact ⟨(hall st hst).1, (hall st hst).2.congr agree_judge⟩

theorem within_visit (nested : t.Nested) {id : Nat} (hs : t.slot? id = some s)
    (children : ∀ c ∈ s.children, ∀ g, t.Within scene c g (run c g).2) :
    t.Within scene id f (t.visit scene run id s f).2 := by
  have hself := nested.mem_self hs
  have hr : t.Within scene id f (t.attempt scene run id s f).2 := within_attempt nested hs children
  obtain ⟨new, hsteps, hall⟩ := hr.steps
  refine ⟨fun n e hn => ?_, new ++ [.ended id (t.attempt scene run id s f).1], ?_, fun st hst => ?_⟩
  · simp only [visit, Frame.memory_note, Frame.memory_record]
    exact (Memory.agree_update (by rintro ⟨rfl, rfl⟩; exact hn ⟨hself, rfl⟩)).trans (hr.agree n e hn)
  · simp [visit, hsteps]
  · rcases List.mem_append.mp hst with hst | hst
    · exact hall st hst
    · rw [List.mem_singleton] at hst
      subst hst
      exact ⟨hself, trivial⟩

/-- Executing a node stays in the subtree of the node. -/
theorem Nested.within_execute (nested : t.Nested) (id : Nat) (f : Frame χ) :
    t.Within scene id f (t.execute scene id f).2 := by
  cases hs : t.slot? id with
  | none => rw [execute_of_none hs]; exact .refl
  | some s =>
      refine nested.induction (fun id => ∀ f, t.Within scene id f (t.execute scene id f).2) ?_ hs f
      intro id s hs children f
      rw [nested.execute_of_slot hs]
      exact within_visit nested hs children

/-- A node whose guard refuses it records the refusal and does nothing else to the memory. -/
theorem Nested.execute_of_refused (nested : t.Nested) {id : Nat} (hs : t.slot? id = some s)
    (refused : (judge scene id s f).1 = false) :
    (t.execute scene id f).1 = .cannotExecute ∧ (t.execute scene id f).2.memory =
      { f.memory with filtered := (s.condition.evaluate scene f.board f.watch).2.filtered }.update id scene.entity
        fun r => { r with status := .cannotExecute, lastExecuted := some scene.tick.time } := by
  rw [nested.execute_of_slot hs]
  simp only [visit, attempt, refused, Bool.false_eq_true, if_false, Frame.memory_note, Frame.memory_record]
  exact ⟨trivial, rfl⟩

end BehaviorTree

end Behavior
