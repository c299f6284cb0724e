import Behavior.Proofs.Tree.Running.Children
/-!
# Running nodes

An execution keeps a tree settled, and after it the running nodes are those that ended as running during
the execution (`Steady.execute_settles`). Decorators never forget their child, so their children may have no
guard that can refuse them.
-/

namespace Behavior

variable {χ : Type}

/-- The root and the children of decorators have no guard that can fail, and no selector is in random
order. -/
def TreeNode.Steady (root : TreeNode χ) : Prop :=
  root.condition.isAlways ∧ ∀ n ∈ root.preorder, n.kind ≠ .randomSelector ∧
    (n.kind.isDecorator → ∀ c ∈ n.children, c.condition.isAlways)

namespace BehaviorTree

variable {t : BehaviorTree χ} {scene : Scene} {run : Runner χ} {f g : Frame χ} {id : Nat} {s : Slot χ}

/-- A laid out tree in which no selector is in random order and neither the root nor the children of
decorators have a guard that can fail. -/
structure Steady (t : BehaviorTree χ) : Prop where
  nested : t.Nested
  root : ∃ s, t.slot? NodeId.root = some s ∧ s.condition.isAlways
  kind {id : Nat} {s} : t.slot? id = some s → s.kind ≠ .randomSelector
  guard {id c : Nat} {s s'} : t.slot? id = some s → s.kind.isDecorator → c ∈ s.children →
    t.slot? c = some s' → s'.condition.isAlways

theorem steady_ofNode (name : String) {root : TreeNode χ} (h : root.Steady) : (ofNode name root).Steady where
  nested := nested_ofNode name root
  root := ⟨_, (holds_ofNode name root).slot, h.1⟩
  kind hs := by
    obtain ⟨n, hn, _, rfl⟩ := exists_holds_of_slot hs
    exact (h.2 n hn).1
  guard hs hk hc hs' := by
    obtain ⟨n, hn, hh, rfl⟩ := exists_holds_of_slot hs
    obtain ⟨m, hm, hhm, _⟩ := hh.children.mem hc
    have := (h.2 n hn).2 hk m hm
    rwa [← Option.some.inj (hhm.slot.symm.trans hs')]

/-! ## The steps of a node itself -/

/-- The acts of a node end its descendants and never itself. -/
theorem Acts.ended (nested : t.Nested) (hs : t.slot? id = some s)
    (children : ∀ c ∈ s.children, ∀ g, t.Within scene c g (run c g).2) {used st}
    (h : t.Acts scene run id s.children f used g) : .ended id st ∈ g.steps ↔ .ended id st ∈ f.steps := by
  induction h with
  | start => rfl
  | @run used g c _ hc _ ih =>
      obtain ⟨new, hsteps, hall⟩ := (children c hc g).steps
      rw [← ih, hsteps, List.mem_append]
      exact ⟨fun hin => hin.resolve_right fun hin =>
        nested.self_not_mem_child hs hc (hall _ hin).1, .inl⟩
  | reset _ _ ih => rwa [steps_reset]
  | resetBelow _ ih => rwa [steps_resetBelow]
  | select _ _ ih => exact ih
  | complete _ ih => exact ih

theorem ended_perform (nested : t.Nested) (hs : t.slot? id = some s)
    (children : ∀ c ∈ s.children, ∀ g, t.Within scene c g (run c g).2) {st} :
    .ended id st ∈ (t.perform scene run id s f).2.steps ↔ .ended id st ∈ f.steps := by
  by_cases hk : ∃ task, s.kind = .task task
  · obtain ⟨task, hk⟩ := hk
    simp [perform, hk, steps_runTask]
  · obtain ⟨used, h⟩ := perform_acts (fun task hk' => hk ⟨task, hk'⟩) (nested.nodup hs)
    exact h.ended nested hs children

/-! ## Executions -/

/-- Recording the result of a node that left its children so completes a settled subtree. -/
theorem Leaves.live_record (nested : t.Nested) (hs : t.slot? id = some s) {r previous : Status}
    (h : t.Leaves scene id s r f) (hended : .ended id .running ∉ f.steps)
    (hg : g = (f.record scene id previous r).note (.ended id r)) : t.Live scene g id := by
  have hmemory : g.memory = f.memory.update id scene.entity fun r' =>
      { r' with status := r, lastExecuted := some scene.tick.time } := by
    rw [hg, Frame.memory_note, Frame.memory_record]
  have hsteps : g.steps = f.steps ++ [.ended id r] := by
    rw [hg, Frame.steps_note, Frame.steps_record]
  have hself : g.status scene id = r := by
    rw [Frame.status_eq, hmemory, Memory.status_eq_get?, Memory.get?_update_self]; rfl
  have hselected : g.memory.selected id scene.entity = f.memory.selected id scene.entity := by
    rw [hmemory, Memory.selected_eq_get?, Memory.get?_update_self]; rfl
  have hcount : g.memory.completions id scene.entity = f.memory.completions id scene.entity := by
    rw [hmemory]; rfl
  have hchildren : ∀ c ∈ s.children, t.Untouched scene f g c := by
    intro c hc
    refine ⟨fun n hn => ?_, fun n hn st => ?_⟩
    · rw [hmemory]
      exact Memory.agree_update fun h => nested.self_not_mem_child hs hc (h.1 ▸ hn)
    · have hne : n ≠ id := fun h => nested.self_not_mem_child hs hc (h ▸ hn)
      simp [hsteps, hne]
  refine ⟨fun n hn s' hs' c hc hrun => ?_, fun n hn => ?_⟩
  · rcases nested.cover hs hn with rfl | ⟨k, hk, hn⟩
    · obtain rfl := Option.some.inj (hs.symm.trans hs')
      have hmem := nested.self_mem_child hs hc
      rw [(hchildren c hc).status hmem] at hrun
      rcases h c hc with hidle | ⟨hr, _, hres⟩
      · exact absurd hrun (hidle.1 c hmem)
      · exact ⟨by rw [hself, hr], hres.congr hselected hcount⟩
    · have hsettled : t.Settled scene g k := by
        rcases h k hk with hidle | ⟨_, hlive, _⟩
        · exact ((hchildren k hk).idle hidle).1.settled nested
        · exact ((hchildren k hk).live nested hlive).1
      exact hsettled n hn s' hs' c hc hrun
  · rcases nested.cover hs hn with rfl | ⟨k, hk, hn⟩
    · simp [hself, hsteps, hended, eq_comm]
    · rcases h k hk with hidle | ⟨_, hlive, _⟩
      · have hidle := (hchildren k hk).idle hidle
        exact iff_of_false (hidle.1 n hn) (hidle.2 n hn)
      · exact ((hchildren k hk).live nested hlive).2 n hn

/-- What executing a node gives that has not been run yet: a settled subtree in which the running nodes are
those that ended as running, unless the node's guard refuses it. -/
structure Settles (t : BehaviorTree χ) (scene : Scene) (run : Runner χ) (id : NodeId) : Prop where
  status (f : Frame χ) : (run id f).2.status scene id = (run id f).1
  outcome (f : Frame χ) : t.Waiting scene f id →
    t.Live scene (run id f).2 id ∨ (run id f).1 = .cannotExecute ∧ t.Silent (run id f).2 id
  unguarded (f : Frame χ) : t.Waiting scene f id → (∀ s, t.slot? id = some s → s.condition.isAlways) →
    t.Live scene (run id f).2 id

theorem Live.idle (nested : t.Nested) (hs : t.slot? id = some s) (h : t.Live scene f id)
    (hne : f.status scene id ≠ .running) : t.Idle scene f id := by
  have hquiet := h.1.quiet nested hs hne
  exact ⟨hquiet, fun n hn hended => hquiet n hn ((h.2 n hn).mpr hended)⟩

theorem obeys_of_settles (steady : t.Steady) (hs : t.slot? id = some s)
    (within : ∀ c ∈ s.children, ∀ f, t.Within scene c f (run c f).2)
    (h : ∀ c ∈ s.children, t.Settles scene run c) : t.Obeys scene run s where
  within := within
  live c hc f hwait hrun := by
    rcases (h c hc).outcome f hwait with hlive | ⟨hr, _⟩
    · exact hlive
    · simp [hr] at hrun
  silent c hc f hwait hne := by
    obtain ⟨s', hs'⟩ := steady.nested.exists_slot hs hc
    rcases (h c hc).outcome f hwait with hlive | ⟨_, hsilent⟩
    · exact (hlive.idle steady.nested hs' (by rw [(h c hc).status]; exact hne)).2
    · exact hsilent
  quiet c hc f hwait hne hdec := by
    obtain ⟨s', hs'⟩ := steady.nested.exists_slot hs hc
    have hlive : t.Live scene (run c f).2 c := by
      rcases (h c hc).outcome f hwait with hlive | ⟨hr, _⟩
      · exact hlive
      · exact (h c hc).unguarded f hwait fun s' hs' => steady.guard hs (hdec hr) hc hs'
    exact (hlive.idle steady.nested hs' (by rw [(h c hc).status]; exact hne)).1

variable [Character χ]

theorem judge_of_isAlways (h : s.condition.isAlways) : (judge scene id s f).1 = true := by
  cases hc : s.condition <;> simp_all [Condition.isAlways, judge, Condition.evaluate]

theorem status_visit : (t.visit scene run id s f).2.status scene id = (t.visit scene run id s f).1 := by
  simp only [visit, Frame.status_eq, Frame.memory_note, Frame.memory_record, Memory.status_eq_get?,
    Memory.get?_update_self]
  rfl

/-- A node that ran leaves its subtree settled if it found it so. -/
theorem visit_live (nested : t.Nested) (hs : t.slot? id = some s) (obeys : t.Obeys scene run s)
    (hk : s.kind ≠ .randomSelector) (hwait : t.Waiting scene f id) (hjudge : (judge scene id s f).1 = true) :
    t.Live scene (t.visit scene run id s f).2 id := by
  have hattempt : t.attempt scene run id s f = t.perform scene run id s (judge scene id s f).2 := by
    simp only [attempt, hjudge, if_true]
  have hjudged : t.Untouched scene f (judge scene id s f).2 id :=
    ⟨fun _ _ => agree_judge, fun _ _ _ => by simp [steps_judge]⟩
  have hwait := hjudged.waiting nested hwait
  have hleaves := perform_leaves nested hs obeys hk
    (fun c hc => ⟨hwait.1.child nested hs hc, fun n hn => hwait.2 n (nested.below hs hc hn).2⟩)
    (fun c hc hrun => (hwait.1 id (nested.mem_self hs) s hs c hc hrun).2)
  refine hleaves.live_record nested hs ?_ (by rw [visit, hattempt])
  rw [ended_perform nested hs obeys.within]
  exact hwait.2 id (nested.mem_self hs)

/-- A node that was refused ended as such, and nothing below it ended. -/
theorem visit_silent (hsilent : t.Silent f id)
    (hjudge : (judge scene id s f).1 = false) : (t.visit scene run id s f).1 = .cannotExecute ∧
      t.Silent (t.visit scene run id s f).2 id := by
  have hattempt : t.attempt scene run id s f = (.cannotExecute, (judge scene id s f).2) := by
    simp [attempt, hjudge]
  refine ⟨by rw [visit, hattempt], fun n hn => ?_⟩
  simp [visit, hattempt, steps_judge, hsilent n hn]

theorem Steady.execute_settles (steady : t.Steady) (hs : t.slot? id = some s) :
    t.Settles scene (t.execute scene) id := by
  refine steady.nested.induction (fun id => t.Settles scene (t.execute scene) id) ?_ hs
  intro id s hs ih
  have obeys := obeys_of_settles steady hs (fun c _ => steady.nested.within_execute c) ih
  have hvisit : ∀ f, t.execute scene id f = t.visit scene (t.execute scene) id s f := fun f =>
    steady.nested.execute_of_slot hs
  refine ⟨fun f => ?_, fun f hwait => ?_, fun f hwait halways => ?_⟩
  · rw [hvisit, status_visit]
  · rw [hvisit]
    cases hjudge : (judge scene id s f).1 with
    | true => exact .inl (visit_live steady.nested hs obeys (steady.kind hs) hwait hjudge)
    | false => exact .inr (visit_silent hwait.2 hjudge)
  · rw [hvisit]
    exact visit_live steady.nested hs obeys (steady.kind hs) hwait (judge_of_isAlways (halways s hs))

end BehaviorTree

end Behavior
