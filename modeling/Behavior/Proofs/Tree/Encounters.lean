import Behavior.Proofs.Tree.Locality
/-!
# What an execution does to one of its nodes

In an execution of a tree, what happens in the subtree of a node is at most one execution of the node, on what was
remembered there before (`Nested.encounters_execute`); after it, or without it, the whole subtree may be forgotten.
-/

namespace Behavior.BehaviorTree

variable {χ : Type}

/-- No step regards the subtree of the node. -/
def Silences (t : BehaviorTree χ) (id : NodeId) (f g : Frame χ) : Prop :=
  ∃ new, g.steps = f.steps ++ new ∧ ∀ st ∈ new, st.node ∉ t.subtree id

/-- Two frames have the same records in the subtree of the node. -/
def Same (t : BehaviorTree χ) (scene : Scene) (id : NodeId) (f g : Frame χ) : Prop :=
  ∀ n ∈ t.subtree id, g.memory.get? n scene.entity = f.memory.get? n scene.entity

/-- Two frames have counted as many completions in the subtree of the node. -/
def SameCounts (t : BehaviorTree χ) (scene : Scene) (id : NodeId) (f g : Frame χ) : Prop :=
  ∀ n ∈ t.subtree id, g.memory.completions n scene.entity = f.memory.completions n scene.entity

/-- There are no records in the subtree of the node. -/
def Forgotten (t : BehaviorTree χ) (scene : Scene) (id : NodeId) (f : Frame χ) : Prop :=
  ∀ n ∈ t.subtree id, f.memory.get? n scene.entity = none

/-- Nothing happens in the subtree of the node. -/
def Spares (t : BehaviorTree χ) (scene : Scene) (id : NodeId) (f g : Frame χ) : Prop :=
  t.Silences id f g ∧ t.SameCounts scene id f g ∧ t.Same scene id f g

/-- Nothing happens in the subtree of the node but that it may be forgotten. -/
def Misses (t : BehaviorTree χ) (scene : Scene) (id : NodeId) (f g : Frame χ) : Prop :=
  t.Silences id f g ∧ t.SameCounts scene id f g ∧ (t.Same scene id f g ∨ t.Forgotten scene id g)

/-- The node is executed by the runner, and nothing else happens in its subtree but that it may be forgotten. -/
def Meets (t : BehaviorTree χ) (scene : Scene) (run : Runner χ) (id : NodeId) (f g : Frame χ) : Prop :=
  ∃ f', t.Spares scene id f f' ∧ t.Misses scene id (run id f').2 g

variable {t : BehaviorTree χ} {scene : Scene} {run whole : Runner χ} {id k c : Nat} {s : Slot χ} {f g h : Frame χ}

/-! ## One after the other -/

theorem Silences.refl : t.Silences id f f := ⟨[], (List.append_nil _).symm, nofun⟩

theorem Silences.of_steps (hsteps : g.steps = f.steps) : t.Silences id f g :=
  ⟨[], hsteps.trans (List.append_nil _).symm, nofun⟩

theorem Silences.trans (hfg : t.Silences id f g) (hgh : t.Silences id g h) : t.Silences id f h := by
  obtain ⟨new, hsteps, hnew⟩ := hfg
  obtain ⟨new', hsteps', hnew'⟩ := hgh
  refine ⟨new ++ new', by rw [hsteps', hsteps, List.append_assoc], fun st hst => ?_⟩
  cases List.mem_append.mp hst with
  | inl hst => exact hnew st hst
  | inr hst => exact hnew' st hst

theorem Same.trans (hfg : t.Same scene id f g) (hgh : t.Same scene id g h) : t.Same scene id f h :=
  fun n hn => (hgh n hn).trans (hfg n hn)

theorem SameCounts.trans (hfg : t.SameCounts scene id f g) (hgh : t.SameCounts scene id g h) :
    t.SameCounts scene id f h :=
  fun n hn => (hgh n hn).trans (hfg n hn)

theorem Spares.refl : t.Spares scene id f f := ⟨.refl, fun _ _ => rfl, fun _ _ => rfl⟩

theorem Spares.trans (hfg : t.Spares scene id f g) (hgh : t.Spares scene id g h) : t.Spares scene id f h :=
  ⟨hfg.1.trans hgh.1, hfg.2.1.trans hgh.2.1, hfg.2.2.trans hgh.2.2⟩

theorem Spares.misses (hfg : t.Spares scene id f g) : t.Misses scene id f g := ⟨hfg.1, hfg.2.1, .inl hfg.2.2⟩

theorem Misses.trans (hfg : t.Misses scene id f g) (hgh : t.Misses scene id g h) : t.Misses scene id f h := by
  refine ⟨hfg.1.trans hgh.1, hfg.2.1.trans hgh.2.1, ?_⟩
  cases hgh.2.2 with
  | inr hforgotten => exact .inr hforgotten
  | inl hsame =>
      cases hfg.2.2 with
      | inl hbefore => exact .inl (hbefore.trans hsame)
      | inr hforgotten => exact .inr fun n hn => (hsame n hn).trans (hforgotten n hn)

theorem Meets.misses (hfg : t.Meets scene run id f g) (hgh : t.Misses scene id g h) : t.Meets scene run id f h := by
  obtain ⟨f', hf', hmisses⟩ := hfg
  exact ⟨f', hf', hmisses.trans hgh⟩

theorem Spares.meets (hfg : t.Spares scene id f g) (hgh : t.Meets scene run id g h) : t.Meets scene run id f h := by
  obtain ⟨g', hg', hmisses⟩ := hgh
  exact ⟨g', hfg.trans hg', hmisses⟩

/-! ## What happens elsewhere -/

/-- What happens within a subtree apart from that of the node. -/
theorem Within.spares (within : t.Within scene c f g) (apart : ∀ n ∈ t.subtree id, n ∉ t.subtree c) :
    t.Spares scene id f g := by
  obtain ⟨new, hsteps, hnew⟩ := within.steps
  have hagree : ∀ n ∈ t.subtree id, g.memory.Agree f.memory n scene.entity := fun n hn =>
    within.agree n scene.entity fun hin => apart n hn hin.1
  exact ⟨⟨new, hsteps, fun st hst hin => apart _ hin (hnew st hst).1⟩, fun n hn => (hagree n hn).2,
    fun n hn => (hagree n hn).1⟩

theorem spares_of_agree (hsteps : g.steps = f.steps)
    (hagree : ∀ n ∈ t.subtree id, g.memory.Agree f.memory n scene.entity) : t.Spares scene id f g :=
  ⟨.of_steps hsteps, fun n hn => (hagree n hn).2, fun n hn => (hagree n hn).1⟩

theorem spares_reset (apart : ∀ n ∈ t.subtree id, n ∉ t.subtree c) : t.Spares scene id f (t.reset scene c f) := by
  refine spares_of_agree steps_reset fun n hn => ?_
  rw [memory_reset]
  exact Memory.agree_resetState fun hin => apart n hn hin.1

theorem misses_reset (inside : ∀ n ∈ t.subtree id, n ∈ t.subtree c) :
    t.Misses scene id f (t.reset scene c f) := by
  refine ⟨.of_steps steps_reset, fun n _ => by rw [memory_reset, completions_resetState], .inr fun n hn => ?_⟩
  rw [memory_reset, get?_resetState, if_pos ⟨inside n hn, rfl⟩]

theorem misses_resetBelow (inside : ∀ n ∈ t.subtree id, n ∈ t.subtree k) :
    t.Misses scene id f (t.resetBelow scene k f) := by
  refine ⟨.of_steps steps_resetBelow, fun n _ => by rw [memory_resetBelow, completions_resetState],
    .inr fun n hn => ?_⟩
  rw [memory_resetBelow, get?_resetState, if_pos ⟨inside n hn, rfl⟩]

/-! ## Acts of an ancestor -/

/-- What the acts of a node do to a node below a child, which they run at most once. -/
theorem Acts.encounters (nested : t.Nested) (hs : t.slot? k = some s) (hc : c ∈ s.children) (hid : id ∈ t.subtree c)
    (within : ∀ c ∈ s.children, ∀ g, t.Within scene c g (run c g).2)
    (hrun : ∀ g, t.Misses scene id g (run c g).2 ∨ t.Meets scene whole id g (run c g).2) {used : List NodeId}
    (acts : t.Acts scene run k s.children f used g) :
    (c ∉ used → t.Spares scene id f g) ∧ (t.Misses scene id f g ∨ t.Meets scene whole id f g) := by
  have inside : ∀ n ∈ t.subtree id, n ∈ t.subtree c := fun n hn => nested.trans hid hn
  have apart {d : Nat} (hd : d ∈ s.children) (hne : d ≠ c) : ∀ n ∈ t.subtree id, n ∉ t.subtree d :=
    fun n hn hin => hne (nested.apart hs hd hc hin (inside n hn))
  have hself : ∀ n ∈ t.subtree id, n ≠ k := by
    rintro n hn rfl
    exact nested.self_not_mem_child hs hc (inside n hn)
  have hspares {g g' : Frame χ} {used used' : List NodeId} (hspares : t.Spares scene id g g')
      (hused : c ∉ used' → c ∉ used)
      (ih : (c ∉ used → t.Spares scene id f g) ∧ (t.Misses scene id f g ∨ t.Meets scene whole id f g)) :
      (c ∉ used' → t.Spares scene id f g') ∧ (t.Misses scene id f g' ∨ t.Meets scene whole id f g') :=
    ⟨fun hnew => (ih.1 (hused hnew)).trans hspares,
      ih.2.imp (·.trans hspares.misses) (·.misses hspares.misses)⟩
  induction acts with
  | start => exact ⟨fun _ => .refl, .inl Spares.refl.misses⟩
  | @run used g d _ hd hnew ih =>
      by_cases heq : d = c
      · subst heq
        have hbefore := ih.1 hnew
        refine ⟨fun hnot => absurd List.mem_cons_self hnot, (hrun g).imp ?_ ?_⟩
        · exact hbefore.misses.trans
        · exact hbefore.meets
      · exact hspares ((within d hd g).spares (apart hd heq)) (fun hnot hin => hnot (List.mem_cons_of_mem d hin)) ih
  | @reset used g d _ hd ih =>
      by_cases heq : d = c
      · subst heq
        refine ⟨fun hnot => absurd List.mem_cons_self hnot, ih.2.imp ?_ ?_⟩
        · exact (·.trans (misses_reset inside))
        · exact (·.misses (misses_reset inside))
      · exact hspares (spares_reset (apart hd heq)) (fun hnot hin => hnot (List.mem_cons_of_mem d hin)) ih
  | @resetBelow used g _ ih =>
      have hbelow : t.Misses scene id g (t.resetBelow scene k g) :=
        misses_resetBelow fun n hn => (nested.below hs hc (inside n hn)).2
      refine ⟨fun hnot => absurd (List.mem_append_left _ hc) hnot, ih.2.imp ?_ ?_⟩
      · exact (·.trans hbelow)
      · exact (·.misses hbelow)
  | @select used g i _ ih =>
      have hselect : t.Spares scene id g (g.setSelected scene k i) :=
        spares_of_agree rfl fun n hn => Memory.agree_setSelected fun heq => hself n hn heq.1
      exact hspares hselect (fun hnot => hnot) ih
  | @complete used g _ ih =>
      have hcomplete : t.Spares scene id g (g.complete scene k) :=
        spares_of_agree rfl fun n hn => Memory.agree_complete fun heq => hself n hn heq.1
      exact hspares hcomplete (fun hnot => hnot) ih

/-! ## Executions -/

theorem encounters_perform (nested : t.Nested) (hs : t.slot? k = some s) (hc : c ∈ s.children)
    (hid : id ∈ t.subtree c) (within : ∀ c ∈ s.children, ∀ g, t.Within scene c g (run c g).2)
    (hrun : ∀ g, t.Misses scene id g (run c g).2 ∨ t.Meets scene whole id g (run c g).2) :
    t.Misses scene id f (t.perform scene run k s f).2 ∨ t.Meets scene whole id f (t.perform scene run k s f).2 := by
  by_cases hk : ∃ task, s.kind = .task task
  · obtain ⟨task, hk⟩ := hk
    have hself : k ∉ t.subtree id := fun hin => nested.self_not_mem_child hs hc (nested.trans hid hin)
    simp only [perform, hk]
    obtain ⟨timer, hmemory⟩ := @memory_runTask _ scene k f task
    refine .inl (Spares.misses ⟨⟨_, steps_runTask, by simpa [Step.node, taskContext] using hself⟩, ?_, fun n hn => ?_⟩)
    · intro n _
      rw [hmemory]
      rfl
    · rw [hmemory]
      exact Memory.get?_update_of_ne fun heq => hself (heq.1 ▸ hn)
  · obtain ⟨used, acts⟩ := perform_acts (fun task hk' => hk ⟨task, hk'⟩) (nested.nodup hs)
    exact (acts.encounters nested hs hc hid within hrun).2

theorem spares_judge [Character χ] (hself : k ∉ t.subtree id) : t.Spares scene id f (judge scene k s f).2 :=
  ⟨⟨_, steps_judge, by simpa [Step.node] using hself⟩, fun _ _ => agree_judge.2, fun _ _ => agree_judge.1⟩

theorem spares_record (hself : k ∉ t.subtree id) (previous r : Status) :
    t.Spares scene id f ((f.record scene k previous r).note (.ended k r)) := by
  refine ⟨⟨[.ended k r], by simp, by simpa [Step.node] using hself⟩, fun n _ => by simp, fun n hn => ?_⟩
  rw [Frame.memory_note, Frame.memory_record]
  exact Memory.get?_update_of_ne fun heq => hself (heq.1 ▸ hn)

/-- An execution misses a node of its subtree or meets it. -/
theorem Nested.encounters_execute [Character χ] (nested : t.Nested) (hs : t.slot? k = some s) (hid : id ∈ t.subtree k)
    (f : Frame χ) : t.Misses scene id f (t.execute scene k f).2 ∨
      t.Meets scene (t.execute scene) id f (t.execute scene k f).2 := by
  refine nested.induction (fun k => id ∈ t.subtree k → ∀ f, t.Misses scene id f (t.execute scene k f).2 ∨
    t.Meets scene (t.execute scene) id f (t.execute scene k f).2) ?_ hs hid f
  intro k s hs ih hid f
  rcases nested.cover hs hid with rfl | ⟨c, hc, hid⟩
  · exact .inr ⟨f, .refl, Spares.refl.misses⟩
  · have hself : k ∉ t.subtree id := fun hin => nested.self_not_mem_child hs hc (nested.trans hid hin)
    have hjudge : t.Spares scene id f (judge scene k s f).2 := spares_judge hself
    rw [nested.execute_of_slot hs]
    simp only [visit, attempt]
    split
    · have hperform := encounters_perform (f := (judge scene k s f).2) nested hs hc hid
        (fun c _ g => nested.within_execute c g) (ih c hc hid)
      refine hperform.imp (fun hmisses => ?_) fun hmeets => ?_
      · exact (hjudge.misses.trans hmisses).trans (spares_record hself _ _).misses
      · exact (hjudge.meets hmeets).misses (spares_record hself _ _).misses
    · exact .inl (hjudge.trans (spares_record hself _ _)).misses

end Behavior.BehaviorTree
