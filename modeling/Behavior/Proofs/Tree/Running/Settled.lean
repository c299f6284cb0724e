import Behavior.Proofs.Tree.Locality
/-!
# Settled subtrees

A node that is left running is remembered by its parent, which is running too and comes back to it:
`Settled` says so of a whole subtree. While a node is being run, each child has either not been run yet
(`Waiting`), or is not running (`Idle`), or was left running by this very execution (`Live`).
-/

namespace Behavior.BehaviorTree

variable {χ : Type}

/-- The parent with this slot comes back to the child when it is run next. -/
def Resumes (s : Slot χ) (m : Memory) (e : EntityId) (id c : NodeId) : Prop :=
  match s.kind with
  | .sequence | .prioritySelector | .probabilitySelector _ =>
    ∃ i, m.selected id e = some i ∧ s.children[i]? = some c
  | .parallel => True
  | .invert | .succeed | .fail => s.children.head? = some c
  | .limit amount => s.children.head? = some c ∧ m.completions id e < amount
  | .randomSelector | .task _ => False

/-- In the subtree, the parent of every running node is running and comes back to it. -/
def Settled (t : BehaviorTree χ) (scene : Scene) (f : Frame χ) (id : NodeId) : Prop :=
  ∀ n ∈ t.subtree id, ∀ s, t.slot? n = some s → ∀ c ∈ s.children, f.status scene c = .running →
    f.status scene n = .running ∧ Resumes s f.memory scene.entity n c

/-- No node of the subtree is running. -/
def Quiet (t : BehaviorTree χ) (scene : Scene) (f : Frame χ) (id : NodeId) : Prop :=
  ∀ n ∈ t.subtree id, f.status scene n ≠ .running

/-- No node of the subtree has ended as running so far. -/
def Silent (t : BehaviorTree χ) (f : Frame χ) (id : NodeId) : Prop :=
  ∀ n ∈ t.subtree id, .ended n .running ∉ f.steps

/-- The running nodes of the subtree are those that have ended as running so far. -/
def Told (t : BehaviorTree χ) (scene : Scene) (f : Frame χ) (id : NodeId) : Prop :=
  ∀ n ∈ t.subtree id, f.status scene n = .running ↔ .ended n .running ∈ f.steps

/-- Nothing in the subtree is running or has been running so far. -/
def Idle (t : BehaviorTree χ) (scene : Scene) (f : Frame χ) (id : NodeId) : Prop :=
  t.Quiet scene f id ∧ t.Silent f id

/-- The subtree has not been run so far. -/
def Waiting (t : BehaviorTree χ) (scene : Scene) (f : Frame χ) (id : NodeId) : Prop :=
  t.Settled scene f id ∧ t.Silent f id

/-- The subtree has been run and is running. -/
def Live (t : BehaviorTree χ) (scene : Scene) (f : Frame χ) (id : NodeId) : Prop :=
  t.Settled scene f id ∧ t.Told scene f id

variable {t : BehaviorTree χ} {scene : Scene} {f g : Frame χ} {id c : Nat} {s : Slot χ}

theorem Resumes.congr {m m' : Memory} {e} (h : Resumes s m e id c) (hsel : m'.selected id e = m.selected id e)
    (hcount : m'.completions id e = m.completions id e) : Resumes s m' e id c := by
  simpa only [Resumes, hsel, hcount] using h

/-! ## What does not touch a subtree -/

/-- Neither the memory of the subtree nor the steps that ended its nodes differ. -/
structure Untouched (t : BehaviorTree χ) (scene : Scene) (f g : Frame χ) (id : NodeId) : Prop where
  agree : ∀ n ∈ t.subtree id, g.memory.Agree f.memory n scene.entity
  ended : ∀ n ∈ t.subtree id, ∀ st, .ended n st ∈ g.steps ↔ .ended n st ∈ f.steps

namespace Untouched

theorem status (h : t.Untouched scene f g id) {n} (hn : n ∈ t.subtree id) :
    g.status scene n = f.status scene n := (h.agree n hn).status

theorem quiet (h : t.Untouched scene f g id) (hq : t.Quiet scene f id) : t.Quiet scene g id := by
  intro n hn
  rw [h.status hn]
  exact hq n hn

theorem silent (h : t.Untouched scene f g id) (hs : t.Silent f id) : t.Silent g id := by
  intro n hn
  rw [h.ended n hn]
  exact hs n hn

theorem told (h : t.Untouched scene f g id) (ht : t.Told scene f id) : t.Told scene g id := by
  intro n hn
  rw [h.status hn, h.ended n hn]
  exact ht n hn

theorem settled (nested : t.Nested) (h : t.Untouched scene f g id) (hs : t.Settled scene f id) :
    t.Settled scene g id := by
  intro n hn s hslot c hc hrun
  rw [h.status (nested.child_mem hn hslot hc)] at hrun
  obtain ⟨hstatus, hres⟩ := hs n hn s hslot c hc hrun
  rw [h.status hn]
  exact ⟨hstatus, hres.congr (h.agree n hn).selected (h.agree n hn).2⟩

theorem idle (h : t.Untouched scene f g id) (hi : t.Idle scene f id) : t.Idle scene g id :=
  ⟨h.quiet hi.1, h.silent hi.2⟩

theorem waiting (nested : t.Nested) (h : t.Untouched scene f g id) (hw : t.Waiting scene f id) :
    t.Waiting scene g id :=
  ⟨h.settled nested hw.1, h.silent hw.2⟩

theorem live (nested : t.Nested) (h : t.Untouched scene f g id) (hl : t.Live scene f id) : t.Live scene g id :=
  ⟨h.settled nested hl.1, h.told hl.2⟩

theorem refl : t.Untouched scene f f id := ⟨fun _ _ => .refl, fun _ _ _ => .rfl⟩

theorem trans {h : Frame χ} (hfg : t.Untouched scene f g id) (hgh : t.Untouched scene g h id) :
    t.Untouched scene f h id :=
  ⟨fun n hn => (hgh.agree n hn).trans (hfg.agree n hn),
    fun n hn st => (hgh.ended n hn st).trans (hfg.ended n hn st)⟩

end Untouched

/-! ## Subtrees side by side -/

variable {c' : Nat} {i : Option Nat}

theorem untouched_of_within (nested : t.Nested) (hs : t.slot? id = some s) (hc : c ∈ s.children)
    (hc' : c' ∈ s.children) (hne : c ≠ c') (h : t.Within scene c' f g) : t.Untouched scene f g c := by
  have hout : ∀ n ∈ t.subtree c, n ∉ t.subtree c' := fun n hn hn' => hne (nested.apart hs hc hc' hn hn')
  refine ⟨fun n hn => h.agree n _ fun hin => hout n hn hin.1, fun n hn st => ?_⟩
  obtain ⟨new, hsteps, hall⟩ := h.steps
  rw [hsteps, List.mem_append]
  exact ⟨fun hin => hin.resolve_right fun hin => hout n hn (hall _ hin).1, .inl⟩

theorem untouched_reset (nested : t.Nested) (hs : t.slot? id = some s) (hc : c ∈ s.children)
    (hc' : c' ∈ s.children) (hne : c ≠ c') : t.Untouched scene f (t.reset scene c' f) c := by
  refine ⟨fun n hn => ?_, fun n _ st => by rw [steps_reset]⟩
  rw [memory_reset]
  exact Memory.agree_resetState fun hin => hne (nested.apart hs hc hc' hn hin.1)

theorem untouched_setSelected (nested : t.Nested) (hs : t.slot? id = some s) (hc : c ∈ s.children) :
    t.Untouched scene f (f.setSelected scene id i) c :=
  ⟨fun _ hn => Memory.agree_setSelected fun h => nested.self_not_mem_child hs hc (h.1 ▸ hn), fun _ _ _ => .rfl⟩

theorem untouched_complete (nested : t.Nested) (hs : t.slot? id = some s) (hc : c ∈ s.children) :
    t.Untouched scene f (f.complete scene id) c :=
  ⟨fun _ hn => Memory.agree_complete fun h => nested.self_not_mem_child hs hc (h.1 ▸ hn), fun _ _ _ => .rfl⟩

theorem untouched_resetAll (nested : t.Nested) (hs : t.slot? id = some s) (hc : c ∈ s.children)
    {cs : List NodeId} (hcs : ∀ c' ∈ cs, c' ∈ s.children) (hnot : c ∉ cs) :
    t.Untouched scene f (t.resetAll scene cs f) c := by
  induction cs generalizing f with
  | nil => exact .refl
  | cons c' cs ih =>
      rw [resetAll_cons]
      have hne : c ≠ c' := fun h => hnot (by simp [h])
      exact (untouched_reset nested hs hc (hcs c' (by simp)) hne).trans
        (ih (fun k hk => hcs k (by simp [hk])) fun h => hnot (by simp [h]))

/-! ## Forgotten subtrees -/

theorem quiet_of_memory (h : ∀ n ∈ t.subtree c, n ∈ t.subtree id)
    (hg : g.memory = t.resetState id scene.entity f.memory) : t.Quiet scene g c := by
  intro n hn
  rw [Frame.status_eq, hg, status_resetState]
  simp [h n hn]

theorem idle_reset (h : t.Silent f c) : t.Idle scene (t.reset scene c f) c :=
  ⟨quiet_of_memory (fun _ hn => hn) memory_reset, fun n hn => by rw [steps_reset]; exact h n hn⟩

theorem idle_resetBelow (nested : t.Nested) (hs : t.slot? id = some s) (hc : c ∈ s.children)
    (h : t.Silent f c) : t.Idle scene (t.resetBelow scene id f) c :=
  ⟨quiet_of_memory (fun _ hn => (nested.below hs hc hn).2) memory_resetBelow,
    fun n hn => by rw [steps_resetBelow]; exact h n hn⟩

theorem idle_resetAll (nested : t.Nested) (hs : t.slot? id = some s) {cs : List NodeId}
    (hcs : ∀ c ∈ cs, c ∈ s.children) (h : ∀ c ∈ cs, t.Silent f c) (hc : c ∈ cs) :
    t.Idle scene (t.resetAll scene cs f) c := by
  induction cs generalizing f with
  | nil => cases hc
  | cons c' cs ih =>
      rw [resetAll_cons]
      have hsilent : ∀ k ∈ cs, t.Silent (t.reset scene c' f) k := fun k hk n hn => by
        rw [steps_reset]; exact h k (by simp [hk]) n hn
      by_cases hin : c ∈ cs
      · exact ih (fun k hk => hcs k (by simp [hk])) hsilent hin
      · have heq : c = c' := (List.mem_cons.mp hc).resolve_right hin
        subst heq
        exact (untouched_resetAll nested hs (hcs c (by simp)) (fun k hk => hcs k (by simp [hk])) hin).idle
          (idle_reset (h c (by simp)))

/-! ## Settled subtrees -/

theorem Quiet.settled (nested : t.Nested) (h : t.Quiet scene f id) : t.Settled scene f id :=
  fun _ hn _ hs c hc hrun => absurd hrun (h c (nested.child_mem hn hs hc))

theorem Idle.waiting (nested : t.Nested) (h : t.Idle scene f id) : t.Waiting scene f id :=
  ⟨h.1.settled nested, h.2⟩

theorem Settled.child (nested : t.Nested) (hs : t.slot? id = some s) (hc : c ∈ s.children)
    (h : t.Settled scene f id) : t.Settled scene f c :=
  fun n hn => h n (nested.below hs hc hn).2

/-- Where the root of a settled subtree is not running, nothing below it is. -/
theorem Settled.quiet (nested : t.Nested) (hs : t.slot? id = some s) (h : t.Settled scene f id)
    (hroot : f.status scene id ≠ .running) : t.Quiet scene f id := by
  refine nested.induction
    (fun id => t.Settled scene f id → f.status scene id ≠ .running → t.Quiet scene f id) ?_ hs h hroot
  intro id s hs ih h hroot n hn
  rcases nested.cover hs hn with rfl | ⟨c, hc, hn⟩
  · exact hroot
  · refine ih c hc (h.child nested hs hc) (fun hrun => hroot ?_) n hn
    exact (h id (nested.mem_self hs) s hs c hc hrun).1

end Behavior.BehaviorTree
