import Behavior.Proofs.Random.Shuffle
import Behavior.Tree.Execution
/-!
# Two executions in lockstep

What a node does depends on what it reads of the memory and on the results of its children only. Two executions that
begin on frames in which it reads the same therefore go the same way as long as the children's do: a relation between
frames that each single change keeps is kept by running the node (`Abreast.perform`).
-/

namespace Behavior.BehaviorTree

variable {χ : Type}

/-- Equal results on related frames. -/
def Together {α : Type} (R : Frame χ → Frame χ → Prop) (p q : α × Frame χ) : Prop :=
  ∃ a f g, p = (a, f) ∧ q = (a, g) ∧ R f g

/-- A relation between frames in which a node reads the same, kept by what the node does itself in either tree. -/
structure Abreast (t t' : BehaviorTree χ) (scene : Scene) (id : NodeId) (s : Slot χ)
    (R : Frame χ → Frame χ → Prop) : Prop where
  status {f g : Frame χ} {c : NodeId} : c ∈ s.children → R f g → f.status scene c = g.status scene c
  selected {f g : Frame χ} : R f g → f.selected scene id = g.selected scene id
  completions {f g : Frame χ} {amount : UInt32} : s.kind = .limit amount → R f g →
    f.memory.completions id scene.entity = g.memory.completions id scene.entity
  reset {f g : Frame χ} {c : NodeId} : c ∈ s.children → R f g → R (t.reset scene c f) (t'.reset scene c g)
  resetBelow {f g : Frame χ} : R f g → R (t.resetBelow scene id f) (t'.resetBelow scene id g)
  setSelected {f g : Frame χ} {i : Option Nat} : R f g → R (f.setSelected scene id i) (g.setSelected scene id i)
  complete {f g : Frame χ} {amount : UInt32} : s.kind = .limit amount → R f g →
    R (f.complete scene id) (g.complete scene id)

variable {t t' : BehaviorTree χ} {scene : Scene} {R : Frame χ → Frame χ → Prop} {run run' : Runner χ}
  {f g : Frame χ} {id : NodeId} {s : Slot χ}

namespace Abreast

variable {cs : List NodeId} (h : Abreast t t' scene id s R)

include h

theorem resetAll (hcs : ∀ c ∈ cs, c ∈ s.children) (hfg : R f g) : R (t.resetAll scene cs f) (t'.resetAll scene cs g) := by
  induction cs generalizing f g with
  | nil => exact hfg
  | cons c cs ih =>
      obtain ⟨hc, hcs⟩ := List.forall_mem_cons.mp hcs
      exact ih hcs (h.reset hc hfg)

variable (hrun : ∀ c ∈ s.children, ∀ {f g}, R f g → Together R (run c f) (run' c g))

include hrun

/-! ## Composites -/

theorem sequenceFrom (hcs : ∀ c ∈ cs, c ∈ s.children) (hfg : R f g) {i : Nat} {last : Status} :
    Together R (t.sequenceFrom scene run id i cs last f) (t'.sequenceFrom scene run' id i cs last g) := by
  induction cs generalizing i last f g with
  | nil => exact ⟨_, _, _, rfl, rfl, h.resetBelow hfg⟩
  | cons c cs ih =>
      obtain ⟨hc, hcs⟩ := List.forall_mem_cons.mp hcs
      obtain ⟨s, f, g, hf, hg, hfg⟩ := hrun c hc hfg
      simp only [BehaviorTree.sequenceFrom, hf, hg]
      cases s with
      | running => exact ⟨_, _, _, rfl, rfl, h.setSelected hfg⟩
      | cannotExecute | failed => exact ⟨_, _, _, rfl, rfl, h.resetBelow hfg⟩
      | exception => exact ⟨_, _, _, rfl, rfl, hfg⟩
      | unknown | finished => exact ih hcs hfg

theorem priorityFrom (hcs : ∀ c ∈ cs, c ∈ s.children) (hfg : R f g) {i : Nat} :
    ∃ s untried f' g', t.priorityFrom scene run id i cs f = (s, untried, f') ∧
      t'.priorityFrom scene run' id i cs g = (s, untried, g') ∧ R f' g' ∧ ∀ c ∈ untried, c ∈ cs := by
  induction cs generalizing i f g with
  | nil => exact ⟨_, _, _, _, rfl, rfl, hfg, nofun⟩
  | cons c cs ih =>
      obtain ⟨hc, hcs⟩ := List.forall_mem_cons.mp hcs
      have hsub {untried : List NodeId} (hin : ∀ c' ∈ untried, c' ∈ cs) : ∀ c' ∈ untried, c' ∈ c :: cs :=
        fun c' hc' => List.mem_cons_of_mem c (hin c' hc')
      obtain ⟨s, f, g, hf, hg, hfg⟩ := hrun c hc hfg
      simp only [BehaviorTree.priorityFrom, hf, hg]
      cases s with
      | running => exact ⟨_, _, _, _, rfl, rfl, h.setSelected hfg, hsub fun _ hc' => hc'⟩
      | cannotExecute | failed =>
          obtain ⟨s, untried, f', g', hf, hg, hfg, hin⟩ := @ih _ _ hcs (h.setSelected (h.reset hc hfg)) (i + 1)
          exact ⟨s, untried, f', g', hf, hg, hfg, hsub hin⟩
      | unknown | finished | exception =>
          exact ⟨_, _, _, _, rfl, rfl, h.reset hc (h.setSelected hfg), hsub fun _ hc' => hc'⟩

theorem runEach (hcs : ∀ c ∈ cs, c ∈ s.children) (hfg : R f g) {overall : Status} :
    Together R (t.runEach scene run cs overall f) (t'.runEach scene run' cs overall g) := by
  induction cs generalizing overall f g with
  | nil => exact ⟨_, _, _, rfl, rfl, hfg⟩
  | cons c cs ih =>
      obtain ⟨hc, hcs⟩ := List.forall_mem_cons.mp hcs
      obtain ⟨s, f, g, hf, hg, hfg⟩ := hrun c hc hfg
      simp only [BehaviorTree.runEach, hf, hg]
      split
      · exact ih hcs hfg
      · exact ih hcs (h.reset hc hfg)

theorem parallelFrom (hcs : ∀ c ∈ cs, c ∈ s.children) (hfg : R f g) {running : Bool} :
    Together R (t.parallelFrom scene run cs running f) (t'.parallelFrom scene run' cs running g) := by
  induction cs generalizing running f g with
  | nil => exact ⟨_, _, _, rfl, rfl, hfg⟩
  | cons c cs ih =>
      obtain ⟨hc, hcs⟩ := List.forall_mem_cons.mp hcs
      obtain ⟨s, f, g, hf, hg, hfg⟩ := hrun c hc hfg
      simp only [BehaviorTree.parallelFrom, hf, hg]
      split
      · exact ih hcs hfg
      · exact ih hcs (h.reset hc hfg)

theorem prioritySelector (hfg : R f g) :
    Together R (t.prioritySelector scene run id s.children f) (t'.prioritySelector scene run' id s.children g) := by
  simp only [BehaviorTree.prioritySelector, h.selected hfg]
  obtain ⟨s, untried, f', g', hf, hg, hfg, hin⟩ := h.priorityFrom hrun (fun c hc => List.mem_of_mem_drop hc)
    (h.resetAll (fun c hc => List.mem_of_mem_take hc) hfg)
  rw [hf, hg]
  exact ⟨_, _, _, rfl, rfl, h.resetAll (fun c hc => List.mem_of_mem_drop (hin c hc)) hfg⟩

theorem probabilitySelector (hfg : R f g) {weights : List Float32} :
    Together R (t.probabilitySelector scene run id weights s.children f)
      (t'.probabilitySelector scene run' id weights s.children g) := by
  have hresumable : resumable? scene id s.children f = resumable? scene id s.children g := by
    simp only [resumable?, h.selected hfg]
    congr 1
    funext i
    cases hc : s.children[i]? with
    | none => rfl
    | some c => simp only [h.status (List.mem_of_getElem? hc) hfg]
  simp only [BehaviorTree.probabilitySelector, hresumable]
  split
  · exact ⟨_, _, _, rfl, rfl, hfg⟩
  · next chosen _ =>
      have hfg : R (t.resetAll scene (s.children.eraseIdx chosen) f) (t'.resetAll scene (s.children.eraseIdx chosen) g) :=
        h.resetAll (fun c hc => List.mem_of_mem_eraseIdx hc) hfg
      cases hc : s.children[chosen]? with
      | none => exact ⟨_, _, _, rfl, rfl, hfg⟩
      | some c =>
          have hmem := List.mem_of_getElem? hc
          obtain ⟨s, f, g, hf, hg, hfg⟩ := hrun c hmem hfg
          simp only [hf, hg]
          split
          · exact ⟨_, _, _, rfl, rfl, h.setSelected hfg⟩
          · exact ⟨_, _, _, rfl, rfl, h.reset hmem (h.setSelected hfg)⟩

theorem parallel (hfg : R f g) :
    Together R (t.parallel scene run id s.children f) (t'.parallel scene run' id s.children g) := by
  have hall : Together R (t.parallelFrom scene run s.children false f)
      (t'.parallelFrom scene run' s.children false g) := h.parallelFrom hrun (fun _ hc => hc) hfg
  obtain ⟨running, f, g, hf, hg, hfg⟩ := hall
  simp only [BehaviorTree.parallel, hf, hg]
  cases running with
  | true => exact ⟨_, _, _, rfl, rfl, hfg⟩
  | false => exact ⟨_, _, _, rfl, rfl, h.resetBelow hfg⟩

/-! ## Decorators -/

omit h in
theorem decorate (hfg : R f g) {map : Status → Status} :
    Together R (decorate run map s.children f) (decorate run' map s.children g) := by
  cases hc : s.children.head? with
  | none =>
      simp only [BehaviorTree.decorate, hc]
      exact ⟨_, _, _, rfl, rfl, hfg⟩
  | some c =>
      obtain ⟨s, f, g, hf, hg, hfg⟩ := hrun c (List.mem_of_head? hc) hfg
      simp only [BehaviorTree.decorate, hc, hf, hg]
      exact ⟨_, _, _, rfl, rfl, hfg⟩

theorem limit (hfg : R f g) {amount : UInt32} (hk : s.kind = .limit amount) :
    Together R (limit scene run id amount s.children f) (limit scene run' id amount s.children g) := by
  cases hc : s.children.head? with
  | none =>
      simp only [BehaviorTree.limit, hc]
      exact ⟨_, _, _, rfl, rfl, hfg⟩
  | some c =>
      simp only [BehaviorTree.limit, hc, h.completions hk hfg]
      split
      · exact ⟨_, _, _, rfl, rfl, hfg⟩
      · obtain ⟨r, f, g, hf, hg, hfg⟩ := hrun c (List.mem_of_head? hc) hfg
        simp only [hf, hg]
        split
        · exact ⟨_, _, _, rfl, rfl, hfg⟩
        · exact ⟨_, _, _, rfl, rfl, h.complete hk hfg⟩

/-! ## Nodes -/

/-- A node that is not a leaf goes the same way on related frames if its children do. -/
theorem perform (leaf : ∀ task, s.kind ≠ .task task) (hfg : R f g) :
    Together R (t.perform scene run id s f) (t'.perform scene run' id s g) := by
  unfold BehaviorTree.perform
  split
  · rw [sequence, sequence, h.selected hfg]
    exact h.sequenceFrom hrun (fun c hc => List.mem_of_mem_drop hc) hfg
  · exact h.prioritySelector hrun hfg
  · exact h.probabilitySelector hrun hfg
  · exact h.runEach hrun (fun c hc => (Generator.shuffle_perm _ _).mem_iff.mp hc) hfg
  · exact h.parallel hrun hfg
  · exact decorate hrun hfg
  · exact decorate hrun hfg
  · exact decorate hrun hfg
  · next amount hk => exact h.limit hrun hfg hk
  · next task hk => exact absurd hk (leaf task)

end Abreast

/-! ## The same memory -/

/-- Two trees with the same subtrees, and a relation between frames with the same memory that is kept by what
composites and decorators do. -/
structure Lockstep (t t' : BehaviorTree χ) (scene : Scene) (R : Frame χ → Frame χ → Prop) : Prop where
  subtree (n : NodeId) : t.subtree n = t'.subtree n
  memory {f g : Frame χ} : R f g → f.memory = g.memory
  forget {f g : Frame χ} {n : NodeId} : R f g → R (f.forget scene n) (g.forget scene n)
  forgetTraced {f g : Frame χ} {n : NodeId} : R f g → R (f.forgetTraced scene n) (g.forgetTraced scene n)
  setSelected {f g : Frame χ} {n : NodeId} {i : Option Nat} :
    R f g → R (f.setSelected scene n i) (g.setSelected scene n i)
  complete {f g : Frame χ} {n : NodeId} : R f g → R (f.complete scene n) (g.complete scene n)

namespace Lockstep

theorem status (h : Lockstep t t' scene R) (hfg : R f g) {n : NodeId} : f.status scene n = g.status scene n := by
  rw [Frame.status, Frame.status, h.memory hfg]

theorem foldl_forgetTraced (h : Lockstep t t' scene R) (hfg : R f g) (ids : List NodeId) :
    R (ids.foldl (·.forgetTraced scene ·) f) (ids.foldl (·.forgetTraced scene ·) g) := by
  induction ids generalizing f g with
  | nil => exact hfg
  | cons n ns ih => exact ih (h.forgetTraced hfg)

theorem abreast (h : Lockstep t t' scene R) : Abreast t t' scene id s R where
  status _ hfg := h.status hfg
  selected hfg := by rw [Frame.selected, Frame.selected, h.memory hfg]
  completions _ hfg := by rw [h.memory hfg]
  reset _ hfg := by
    rw [reset, reset, h.subtree]
    exact h.foldl_forgetTraced hfg _
  resetBelow hfg := by
    rw [resetBelow, resetBelow, h.subtree]
    cases t'.subtree id with
    | nil => exact hfg
    | cons self below => exact h.foldl_forgetTraced (h.forget hfg) below
  setSelected := h.setSelected
  complete _ := h.complete

/-- A node that is not a leaf goes the same way on related frames if its children do. -/
theorem perform (h : Lockstep t t' scene R)
    (hrun : ∀ c ∈ s.children, ∀ {f g}, R f g → Together R (run c f) (run' c g))
    (leaf : ∀ task, s.kind ≠ .task task) (hfg : R f g) :
    Together R (t.perform scene run id s f) (t'.perform scene run' id s g) :=
  h.abreast.perform hrun leaf hfg

variable [Character χ]

theorem attempt (h : Lockstep t t' scene R)
    (hrun : ∀ c ∈ s.children, ∀ {f g}, R f g → Together R (run c f) (run' c g))
    (judge : ∀ {f g}, R f g → Together R (judge scene id s f) (judge scene id s g))
    (leaf : ∀ {task f g}, R f g → Together R (runTask scene id task f) (runTask scene id task g)) (hfg : R f g) :
    Together R (t.attempt scene run id s f) (t'.attempt scene run' id s g) := by
  obtain ⟨allowed, f, g, hf, hg, hfg⟩ := judge hfg
  rw [BehaviorTree.attempt, BehaviorTree.attempt, hf, hg]
  cases allowed with
  | false => exact ⟨_, _, _, rfl, rfl, hfg⟩
  | true =>
      by_cases hk : ∃ task, s.kind = .task task
      · obtain ⟨task, hk⟩ := hk
        simp only [if_true, BehaviorTree.perform, hk]
        exact leaf hfg
      · exact h.perform hrun (fun task hk' => hk ⟨task, hk'⟩) hfg

/-- Executions of a tree go the same way on related frames if guards, leaves and records do. -/
theorem execute (h : Lockstep t t scene R)
    (judge : ∀ {id s f g}, R f g → Together R (judge scene id s f) (judge scene id s g))
    (leaf : ∀ {id task f g}, R f g → Together R (runTask scene id task f) (runTask scene id task g))
    (record : ∀ {id previous status f g}, R f g →
      R ((f.record scene id previous status).note (.ended id status))
        ((g.record scene id previous status).note (.ended id status)))
    (hfg : R f g) : Together R (t.execute scene id f) (t.execute scene id g) := by
  simp only [BehaviorTree.execute]
  generalize t.size - id = depth
  induction depth generalizing id f g with
  | zero => exact ⟨_, _, _, rfl, rfl, hfg⟩
  | succ depth ih =>
      simp only [executeTo]
      cases t.slot? id with
      | none => exact ⟨_, _, _, rfl, rfl, hfg⟩
      | some s =>
          have hattempt : Together R (t.attempt scene (t.executeTo scene depth) id s f)
              (t.attempt scene (t.executeTo scene depth) id s g) := by
            refine h.attempt ?_ judge leaf hfg
            intro c _ f g hfg
            exact ih hfg
          obtain ⟨status, f', g', hf, hg, hfg'⟩ := hattempt
          simp only [visit, hf, hg, h.status hfg]
          exact ⟨_, _, _, rfl, rfl, record hfg'⟩

end Lockstep

end Behavior.BehaviorTree
