import Behavior.Proofs.Tree.Calls
import Behavior.Proofs.Tree.Lockstep
import Behavior.Proofs.Tree.Recall
/-!
# What executions read and write

Executing a node writes the entries of its subtree and the counts of the limited nodes in it, for one entity, and what
it does depends on no other entries and counts. Main statement: `BehaviorTree.execution_confined`.
-/

namespace Behavior.BehaviorTree

variable {χ : Type} {t : BehaviorTree χ} {scene : Scene} {run run' : Runner χ} {id c k n : Nat} {e : EntityId}
  {s : Slot χ} {f g : Frame χ} {m m' : Memory}

/-- The node counts how often it has completed. -/
def Counts (t : BehaviorTree χ) (n : NodeId) : Prop := ∃ s amount, t.slot? n = some s ∧ s.kind = .limit amount

/-! ## Counts -/

/-- What a completion makes of a count. -/
def counted (count : UInt32) : UInt32 := if count = 0xFFFFFFFF then count else count + 1

theorem le_counted {count : UInt32} : count ≤ counted count := by
  rw [counted, UInt32.le_iff_toNat_le]
  split
  · exact Nat.le_refl _
  · next hne =>
    have hlt := count.toNat_lt
    have hmax : count.toNat ≠ 0xFFFFFFFF := fun heq => hne (UInt32.toNat_inj.mp heq)
    rw [UInt32.toNat_add, UInt32.toNat_one, Nat.mod_eq_of_lt (by omega)]
    exact Nat.le_succ _

theorem completions_complete_eq : (m.complete k scene.entity).completions n e =
    if n = k ∧ e = scene.entity then counted (m.completions k scene.entity) else m.completions n e :=
  Memory.completions_complete

section Counts

variable {Q : UInt32 → UInt32 → Prop} (refl : ∀ {count}, Q count count)
  (trans : ∀ {count count' count''}, Q count count' → Q count' count'' → Q count count'')

include refl trans

/-- A node does nothing to the count of another one. -/
theorem tolerates_completions (hs : t.slot? id = some s)
    (hcount : n = id → e = scene.entity → t.Counts n → ∀ {count}, Q count (counted count)) :
    t.Tolerates scene id s fun f g => Q (f.memory.completions n e) (g.memory.completions n e) where
  refl := refl
  trans := trans
  reset _ := by simpa using refl
  resetBelow {f} := by simpa using refl
  setSelected {f i} := by simpa using refl
  complete {f amount} hk := by
    rw [Frame.memory_complete, completions_complete_eq]
    split
    · next h =>
      obtain ⟨rfl, rfl⟩ := h
      exact hcount rfl rfl ⟨s, amount, hs, hk⟩
    · exact refl

/-- What holds between a count and what a completion makes of it holds between a count before and after an
execution. -/
theorem Nested.completions_execute [Character χ] (nested : t.Nested) (hs : t.slot? id = some s)
    (hcount : n ∈ t.subtree id → e = scene.entity → t.Counts n → ∀ {count}, Q count (counted count)) (f : Frame χ) :
    Q (f.memory.completions n e) ((t.execute scene id f).2.memory.completions n e) := by
  refine nested.induction (fun id =>
    (n ∈ t.subtree id → e = scene.entity → t.Counts n → ∀ {count}, Q count (counted count)) →
    ∀ f, Q (f.memory.completions n e) ((t.execute scene id f).2.memory.completions n e)) ?_ hs hcount f
  intro id s hs ih hcount f
  have tolerates : t.Tolerates scene id s fun f g => Q (f.memory.completions n e) (g.memory.completions n e) :=
    tolerates_completions refl trans hs fun hn => hcount (hn.symm ▸ nested.mem_self hs)
  have passes : Passes (t.execute scene) _ (judge scene id s f).2 (t.callsIn scene id s f) _ :=
    tolerates.attempt fun task _ g => by
      obtain ⟨timer, hm⟩ := @memory_runTask _ scene id g task
      rw [hm]
      exact refl
  have hattempt := passes.rel tolerates fun x hx => by
    have hc := (callsIn_acts (nested.nodup hs) x hx).1
    exact ih x.1 hc (fun hn => hcount (nested.below hs hc hn).2) x.2
  have hjudge : (judge scene id s f).2.memory.completions n e = f.memory.completions n e := rfl
  rw [hjudge] at hattempt
  rw [nested.execute_of_slot hs]
  simpa [visit] using hattempt

end Counts

/-! ## Frames that an execution does not tell apart -/

/-- Two frames in which all is the same that an execution of the node can read. -/
structure Indistinct (t : BehaviorTree χ) (scene : Scene) (id : NodeId) (f g : Frame χ) : Prop where
  world : g.world = f.world
  entries {n : NodeId} : n ∈ t.subtree id → g.memory.get? n scene.entity = f.memory.get? n scene.entity
  counts {n : NodeId} : n ∈ t.subtree id → t.Counts n →
    g.memory.completions n scene.entity = f.memory.completions n scene.entity

namespace Indistinct

variable {f' g' : Frame χ}

theorem status (h : t.Indistinct scene id f g) (hn : n ∈ t.subtree id) : g.status scene n = f.status scene n :=
  Memory.status_congr (h.entries hn)

theorem getD (h : t.Indistinct scene id f g) (hn : n ∈ t.subtree id) :
    g.memory.getD n scene.entity = f.memory.getD n scene.entity := Memory.getD_congr (h.entries hn)

theorem filtered (h : t.Indistinct scene id f g) : g.memory.filtered = f.memory.filtered :=
  congrArg World.filtered h.world

theorem child (nested : t.Nested) {id c : Nat} (hs : t.slot? id = some s) (hc : c ∈ s.children)
    (h : t.Indistinct scene id f g) : t.Indistinct scene c f g where
  world := h.world
  entries hn := h.entries (nested.below hs hc hn).2
  counts hn := h.counts (nested.below hs hc hn).2

/-- What follows a change of one record that is the same on both sides. -/
theorem update (h : t.Indistinct scene id f g) (hk : k ∈ t.subtree id) {r : NodeRecord → NodeRecord}
    (world : g'.world = f'.world) (hf : f'.memory = f.memory.update k scene.entity r)
    (hg : g'.memory = g.memory.update k scene.entity r) : t.Indistinct scene id f' g' where
  world := world
  entries hn := by rw [hf, hg, Memory.get?_update, Memory.get?_update, h.entries hn, h.getD hk]
  counts hn hcounts := by
    rw [hf, hg, Memory.completions_update, Memory.completions_update, h.counts hn hcounts]

theorem forget (h : t.Indistinct scene id f g) (world : g'.world = f'.world)
    (hf : f'.memory = f.memory.forget k scene.entity) (hg : g'.memory = g.memory.forget k scene.entity) :
    t.Indistinct scene id f' g' where
  world := world
  entries hn := by rw [hf, hg, Memory.get?_forget, Memory.get?_forget, h.entries hn]
  counts hn hcounts := by rw [hf, hg, Memory.completions_forget, Memory.completions_forget, h.counts hn hcounts]

theorem setSelected (h : t.Indistinct scene id f g) (hk : k ∈ t.subtree id) {i : Option Nat} :
    t.Indistinct scene id (f.setSelected scene k i) (g.setSelected scene k i) where
  world := by simpa [Frame.world, Frame.setSelected] using h.world
  entries hn := by
    simp only [Frame.memory_setSelected, Memory.get?_setSelected, h.entries hn, h.entries hk, h.getD hk]
  counts hn hcounts := by
    rw [Frame.memory_setSelected, Frame.memory_setSelected, Memory.completions_setSelected,
      Memory.completions_setSelected, h.counts hn hcounts]

theorem complete (h : t.Indistinct scene id f g) (hk : k ∈ t.subtree id) (hcounts : t.Counts k) :
    t.Indistinct scene id (f.complete scene k) (g.complete scene k) where
  world := h.world
  entries hn := h.entries hn
  counts hn hcounts' := by
    simp only [Frame.memory_complete, Memory.completions_complete, h.counts hk hcounts, h.counts hn hcounts']

/-! ## Acts -/

theorem forgetTraced (h : t.Indistinct scene id f g) (hk : k ∈ t.subtree id) :
    t.Indistinct scene id (f.forgetTraced scene k) (g.forgetTraced scene k) := by
  have world {f : Frame χ} :
      (f.forgetTraced scene k).world = f.world.traceChange scene k (f.status scene k) .unknown := by
    simp only [Frame.forgetTraced, World.traceChange]
    split <;> rfl
  refine h.forget ?_ Frame.memory_forgetTraced Frame.memory_forgetTraced
  rw [world, world, h.world, h.status hk]

theorem foldl_forgetTraced (h : t.Indistinct scene id f g) {ns : List NodeId} (hns : ∀ n ∈ ns, n ∈ t.subtree id) :
    t.Indistinct scene id (ns.foldl (·.forgetTraced scene ·) f) (ns.foldl (·.forgetTraced scene ·) g) := by
  induction ns generalizing f g with
  | nil => exact h
  | cons n ns ih =>
      obtain ⟨hn, hns⟩ := List.forall_mem_cons.mp hns
      exact ih (h.forgetTraced hn) hns

/-- What a node does itself keeps the frames indistinct. -/
theorem abreast (nested : t.Nested) {id : Nat} (hs : t.slot? id = some s) :
    Abreast t t scene id s (t.Indistinct scene id) where
  status hc h := (h.status (nested.below hs hc (nested.self_mem_child hs hc)).2).symm
  selected h := (Memory.selected_congr (h.entries (nested.mem_self hs))).symm
  completions hk h := (h.counts (nested.mem_self hs) ⟨s, _, hs, hk⟩).symm
  reset hc h := h.foldl_forgetTraced fun n hn => (nested.below hs hc hn).2
  resetBelow {f g} h := by
    rw [BehaviorTree.resetBelow, BehaviorTree.resetBelow]
    cases hns : t.subtree id with
    | nil => exact h
    | cons self below =>
        have hforget : t.Indistinct scene id (f.forget scene self) (g.forget scene self) := h.forget h.world rfl rfl
        exact hforget.foldl_forgetTraced fun n hn => hns ▸ List.mem_cons_of_mem self hn
  setSelected h := h.setSelected (nested.mem_self hs)
  complete hk h := h.complete (nested.mem_self hs) ⟨s, _, hs, hk⟩

theorem exists_runTask (h : t.Indistinct scene id f g) (hself : id ∈ t.subtree id) {task : Task χ} :
    Together (t.Indistinct scene id) (runTask scene id task f) (runTask scene id task g) := by
  have hfiltered := h.filtered
  have hrecord := h.getD hself
  have hworld := h.world
  simp only [Frame.world, World.mk.injEq] at hworld
  obtain ⟨hcharacter, hboard, -, hreceived, hjournal, hsteps⟩ := hworld
  simp only [runTask, Frame.note, hrecord, hfiltered, hcharacter, hboard, hjournal, hsteps]
  generalize task _ _ = left
  cases left.1.result with
  | ok status =>
      refine ⟨_, _, _, rfl, rfl, h.update (r := fun r => { r with timer := left.2.timer }) hself ?_ rfl rfl⟩
      simp only [Frame.world, Memory.setTimer, Memory.update, hfiltered, hreceived]
  | error fault =>
      refine ⟨_, _, _, rfl, rfl, h.update (r := fun r => { r with timer := left.2.timer }) hself ?_ rfl rfl⟩
      simp only [Frame.world, Frame.trace, Memory.setTimer, Memory.update, hfiltered, hreceived]

/-- What happens in the subtree of a child leaves the frames indistinct to the parent. -/
theorem parent (h : t.Indistinct scene id f g) (h' : t.Indistinct scene c f' g') (hf : t.Within scene c f f')
    (hg : t.Within scene c g g') : t.Indistinct scene id f' g' where
  world := h'.world
  entries {n} hn := by
    by_cases hin : n ∈ t.subtree c
    · exact h'.entries hin
    · have hout : ¬(n ∈ t.subtree c ∧ scene.entity = scene.entity) := fun h => hin h.1
      rw [(hf.agree n _ hout).1, (hg.agree n _ hout).1, h.entries hn]
  counts {n} hn hcounts := by
    by_cases hin : n ∈ t.subtree c
    · exact h'.counts hin hcounts
    · have hout : ¬(n ∈ t.subtree c ∧ scene.entity = scene.entity) := fun h => hin h.1
      rw [(hf.agree n _ hout).2, (hg.agree n _ hout).2, h.counts hn hcounts]

theorem record (h : t.Indistinct scene id f g) (hself : id ∈ t.subtree id) {previous status : Status} :
    t.Indistinct scene id ((f.record scene id previous status).note (.ended id status))
      ((g.record scene id previous status).note (.ended id status)) := by
  have world {f : Frame χ} : ((f.record scene id previous status).note (.ended id status)).world =
      (f.world.traceChange scene id previous status).note (.ended id status) := by
    simp only [Frame.record, World.traceChange]
    split <;> rfl
  refine h.update hself ?_ Frame.memory_record Frame.memory_record
  rw [world, world, h.world]

variable [Character χ]

theorem exists_judge (h : t.Indistinct scene id f g) :
    Together (t.Indistinct scene id) (judge scene k s f) (judge scene k s g) := by
  have hworld := h.world
  simp only [Frame.world, World.mk.injEq] at hworld
  obtain ⟨hcharacter, hboard, hfiltered, hreceived, hjournal, hsteps⟩ := hworld
  simp only [judge, Frame.watch, hcharacter, hboard, hfiltered]
  refine ⟨_, _, _, rfl, rfl, ?_, h.entries, h.counts⟩
  simp only [Frame.world, Frame.withWatch, Frame.note, hboard, hreceived, hjournal, hsteps]

end Indistinct

variable [Character χ]

/-- An execution goes the same way on frames that it does not tell apart. -/
theorem Nested.indistinct_execute (nested : t.Nested) {id : Nat} (hs : t.slot? id = some s)
    (h : t.Indistinct scene id f g) :
    Together (t.Indistinct scene id) (t.execute scene id f) (t.execute scene id g) := by
  refine nested.induction (fun id => ∀ f g, t.Indistinct scene id f g →
    Together (t.Indistinct scene id) (t.execute scene id f) (t.execute scene id g)) ?_ hs f g h
  intro id s hs ih f g h
  have hself := nested.mem_self hs
  have hrun : ∀ c ∈ s.children, ∀ {f g}, t.Indistinct scene id f g →
      Together (t.Indistinct scene id) (t.execute scene c f) (t.execute scene c g) := by
    intro c hc f g h
    obtain ⟨status, f', g', hf, hg, h'⟩ := ih c hc f g (h.child nested hs hc)
    have hwithin : t.Within scene c f (t.execute scene c f).2 := nested.within_execute c f
    have hwithin' : t.Within scene c g (t.execute scene c g).2 := nested.within_execute c g
    rw [hf] at hwithin
    rw [hg] at hwithin'
    exact ⟨status, f', g', hf, hg, h.parent h' hwithin hwithin'⟩
  have hattempt : Together (t.Indistinct scene id) (t.attempt scene (t.execute scene) id s f)
      (t.attempt scene (t.execute scene) id s g) := by
    obtain ⟨allowed, f', g', hf, hg, h'⟩ := @Indistinct.exists_judge _ t scene id id s f g _ h
    rw [attempt, attempt, hf, hg]
    cases allowed with
    | false => exact ⟨_, _, _, rfl, rfl, h'⟩
    | true =>
        by_cases hk : ∃ task, s.kind = .task task
        · obtain ⟨task, hk⟩ := hk
          simp only [if_true, perform, hk]
          exact h'.exists_runTask hself
        · exact (Indistinct.abreast nested hs).perform hrun (fun task hk' => hk ⟨task, hk'⟩) h'
  obtain ⟨status, f', g', hf, hg, h'⟩ := hattempt
  rw [nested.execute_of_slot hs, nested.execute_of_slot hs]
  simp only [visit, hf, hg, h.status hself]
  exact ⟨_, _, _, rfl, rfl, h'.record hself⟩

/-- Executing a node for an entity changes no entry but those of its subtree for that entity, changes no count but
those of the limited nodes in the subtree for that entity, and lowers none. On another memory that holds the same of
these entries and counts, and the same in the cache, it has the same result and the same effect, apart from what it
leaves alone. If the guard refuses the node, only its own entry changes, in its last status and the time of it. -/
theorem execution_confined {name : String} {root : TreeNode χ} {scene : Scene} {id : Nat} {s : Slot χ}
    (hs : (ofNode name root).slot? id = some s) (f : Frame χ) :
    let t := ofNode name root
    let r := t.execute scene id f
    (∀ n e, ¬(n ∈ t.subtree id ∧ e = scene.entity) → r.2.memory.get? n e = f.memory.get? n e) ∧
    (∀ n e, ¬(n ∈ t.subtree id ∧ e = scene.entity ∧ t.Counts n) →
      r.2.memory.completions n e = f.memory.completions n e) ∧
    (∀ n e, f.memory.completions n e ≤ r.2.memory.completions n e) ∧
    (∀ m : Memory, m.filtered = f.memory.filtered →
      (∀ n ∈ t.subtree id, m.get? n scene.entity = f.memory.get? n scene.entity) →
      (∀ n ∈ t.subtree id, t.Counts n → m.completions n scene.entity = f.memory.completions n scene.entity) →
      let r' := t.execute scene id { f with memory := m }
      r'.1 = r.1 ∧ r'.2.world = r.2.world ∧
        (∀ n ∈ t.subtree id, r'.2.memory.get? n scene.entity = r.2.memory.get? n scene.entity) ∧
        ∀ n ∈ t.subtree id, t.Counts n → r'.2.memory.completions n scene.entity = r.2.memory.completions n scene.entity) ∧
    ((judge scene id s f).1 = false →
      r.1 = .cannotExecute ∧ r.2.memory.get? id scene.entity =
        some { f.memory.getD id scene.entity with status := .cannotExecute, lastExecuted := some scene.tick.time } ∧
      (∀ n e, ¬(n = id ∧ e = scene.entity) → r.2.memory.get? n e = f.memory.get? n e) ∧
      ∀ n e, r.2.memory.completions n e = f.memory.completions n e) := by
  intro t r
  have nested : t.Nested := nested_ofNode name root
  have hwithin : t.Within scene id f r.2 := nested.within_execute id f
  refine ⟨fun n e hn => (hwithin.agree n e hn).1, fun n e hn => ?_, fun n e => ?_, fun m hm hentries hcounts => ?_,
    fun refused => ?_⟩
  · have unchanged {count count' count'' : UInt32} (h : count' = count) (h' : count'' = count') : count'' = count :=
      h'.trans h
    exact nested.completions_execute (Q := fun x y => y = x) rfl unchanged hs
      (fun hin he hcounts => absurd ⟨hin, he, hcounts⟩ hn) f
  · exact nested.completions_execute (Q := (· ≤ ·)) (UInt32.le_refl _) UInt32.le_trans hs (fun _ _ _ => le_counted) f
  · have h : t.Indistinct scene id f { f with memory := m } := by
      refine ⟨?_, fun hn => hentries _ hn, fun hn => hcounts _ hn⟩
      simp only [Frame.world, hm]
    obtain ⟨status, f', g', hf, hg, h'⟩ := nested.indistinct_execute hs h
    simp only [r, hf, hg]
    exact ⟨trivial, h'.world, fun n hn => h'.entries hn, fun n hn => h'.counts hn⟩
  · obtain ⟨hstatus, hmemory⟩ := nested.execute_of_refused hs refused
    refine ⟨hstatus, ?_, fun n e hn => ?_, fun n e => ?_⟩
    · rw [hmemory, Memory.get?_update_self]
      rfl
    · rw [hmemory, Memory.get?_update_of_ne hn]
      rfl
    · rw [hmemory, Memory.completions_update]
      rfl

/-- A limited node that completes next to a leaf that waits. -/
theorem execution_confined_beside :
    let limited : TreeNode Unit := { TreeNode.ofKind (.limit 1) with children := [.idle 0] }
    let t := ofNode "" { TreeNode.ofKind .parallel with children := [limited, .idle 100] }
    let scene : Scene := { entity := ⟨7⟩ }
    let f : Frame Unit := { character := (), memory := ({} : Memory).setStatus 3 ⟨7⟩ .running, board := {} }
    let r := t.execute scene 1 f
    t.slot? 1 = some (limited.slot 1) ∧ r.1 = .finished ∧ r.2.memory.completions 1 ⟨7⟩ = 1 ∧
      r.2.memory.get? 3 ⟨7⟩ = f.memory.get? 3 ⟨7⟩ ∧ (t.execute scene 1 { f with memory := {} }).1 = .finished := by
  intro limited t scene f r
  have hs : t.slot? 1 = some (limited.slot 1) := rfl
  have hresult : r.1 = .finished := by decide +kernel
  have hout : 3 ∉ t.subtree 1 := by decide
  obtain ⟨entries, -, -, independent, -⟩ := @execution_confined Unit _ "" _ scene 1 _ hs f
  refine ⟨hs, hresult, by decide +kernel, entries 3 ⟨7⟩ fun h => hout h.1, ?_⟩
  rw [← hresult]
  refine (independent {} rfl (fun n hn => ?_) fun n hn _ => rfl).1
  have hne : ¬(n = 3 ∧ scene.entity = ⟨7⟩) := by
    rintro ⟨rfl, -⟩
    exact hout hn
  exact (Memory.get?_update_of_ne hne).symm

end Behavior.BehaviorTree
