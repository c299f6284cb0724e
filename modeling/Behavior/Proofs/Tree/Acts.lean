import Behavior.Proofs.Tree.Execution
import Behavior.Proofs.Tree.Forgetting
/-!
# What composites and decorators do

A node that is no leaf gets on by few kinds of acts: it runs and forgets children, selects one of them,
counts a completion, and forgets its whole subtree. It runs a child only as long as it has not touched
that child before. What each act keeps, running the node keeps.
-/

namespace Behavior.BehaviorTree

variable {χ : Type}

/-- The frames that the acts of a node with these children lead to, with the children touched on the
way. -/
inductive Acts (t : BehaviorTree χ) (scene : Scene) (run : Runner χ) (id : NodeId) (children : List NodeId)
    (f : Frame χ) : List NodeId → Frame χ → Prop where
  | start : Acts t scene run id children f [] f
  | run {used g c} : Acts t scene run id children f used g → c ∈ children → c ∉ used →
      Acts t scene run id children f (c :: used) (run c g).2
  | reset {used g c} : Acts t scene run id children f used g → c ∈ children →
      Acts t scene run id children f (c :: used) (t.reset scene c g)
  | resetBelow {used g} : Acts t scene run id children f used g →
      Acts t scene run id children f (children ++ used) (t.resetBelow scene id g)
  | select {used g} (i : Option Nat) : Acts t scene run id children f used g →
      Acts t scene run id children f used (g.setSelected scene id i)
  | complete {used g} : Acts t scene run id children f used g →
      Acts t scene run id children f used (g.complete scene id)

variable {t : BehaviorTree χ} {scene : Scene} {run : Runner χ} {id : NodeId} {children : List NodeId}
  {f g : Frame χ} {used : List NodeId}

theorem not_mem_eraseIdx {cs : List NodeId} {i : Nat} {c : NodeId} (nodup : cs.Nodup) (hc : cs[i]? = some c) :
    c ∉ cs.eraseIdx i := by
  rw [List.mem_eraseIdx_iff_getElem?]
  rintro ⟨j, hne, hj⟩
  have hi := (List.getElem?_eq_some_iff.mp hc).1
  exact hne ((List.getElem?_inj hi nodup).mp (hc.trans hj.symm)).symm

theorem not_mem_take {cs : List NodeId} {n : Nat} {c : NodeId} (nodup : cs.Nodup) (hc : c ∈ cs.drop n) :
    c ∉ cs.take n := by
  intro hin
  rw [← List.take_append_drop n cs, List.nodup_append] at nodup
  exact nodup.2.2 c hin c hc rfl

/-- What stands at an index, and what is left after it. -/
theorem drop_eq_cons {cs ds : List NodeId} {i : Nat} {c : NodeId} (h : cs.drop i = c :: ds) :
    cs[i]? = some c ∧ cs.drop (i + 1) = ds := by
  rw [← List.head?_drop, ← List.tail_drop, h]
  exact ⟨rfl, rfl⟩

theorem resetAll_acts {cs} (h : t.Acts scene run id children f used g) (hcs : ∀ c ∈ cs, c ∈ children) :
    ∃ used', t.Acts scene run id children f used' (t.resetAll scene cs g) ∧ ∀ c ∈ used', c ∈ cs ∨ c ∈ used := by
  induction cs generalizing g used with
  | nil => exact ⟨used, h, fun c hc => .inr hc⟩
  | cons c cs ih =>
      obtain ⟨used', h', hsub⟩ := ih (h.reset (hcs c (by simp))) fun c' hc' => hcs c' (by simp [hc'])
      exact ⟨used', h', fun c' hc' => by have := hsub c' hc'; grind⟩

theorem sequenceFrom_acts {i cs last} (h : t.Acts scene run id children f used g)
    (hcs : ∀ c ∈ cs, c ∈ children ∧ c ∉ used) (nodup : cs.Nodup) :
    ∃ used', t.Acts scene run id children f used' (t.sequenceFrom scene run id i cs last g).2 := by
  induction cs generalizing g used i last with
  | nil => exact ⟨_, h.resetBelow⟩
  | cons c cs ih =>
      obtain ⟨hc, hnew⟩ := hcs c (by simp)
      have h := h.run hc hnew
      simp only [sequenceFrom]
      rcases hr : run c g with ⟨s, g'⟩
      rw [hr] at h
      have hcs' : ∀ c' ∈ cs, c' ∈ children ∧ c' ∉ c :: used := by grind
      cases s with
      | running => exact ⟨_, h.select (some i)⟩
      | cannotExecute | failed => exact ⟨_, h.resetBelow⟩
      | exception => exact ⟨_, h⟩
      | unknown | finished => exact ih h hcs' (nodup.of_cons)

theorem priorityFrom_acts {i cs} (h : t.Acts scene run id children f used g)
    (hcs : ∀ c ∈ cs, c ∈ children ∧ c ∉ used) (nodup : cs.Nodup) :
    ∃ used', t.Acts scene run id children f used' (t.priorityFrom scene run id i cs g).2.2 ∧
      ∀ c ∈ (t.priorityFrom scene run id i cs g).2.1, c ∈ cs := by
  induction cs generalizing g used i with
  | nil => exact ⟨_, h, fun c hc => hc⟩
  | cons c cs ih =>
      obtain ⟨hc, hnew⟩ := hcs c (by simp)
      have h := h.run hc hnew
      simp only [priorityFrom]
      rcases hr : run c g with ⟨s, g'⟩
      rw [hr] at h
      have hcs' : ∀ c' ∈ cs, c' ∈ children ∧ c' ∉ c :: c :: used := by grind
      cases s with
      | running => exact ⟨_, h.select (some i), fun c' hc' => List.mem_cons_of_mem c hc'⟩
      | cannotExecute | failed =>
          obtain ⟨used', h', hsub⟩ := @ih _ _ (i + 1) ((h.reset hc).select none) hcs' nodup.of_cons
          exact ⟨used', h', fun c' hc' => by simp [hsub c' hc']⟩
      | unknown | finished | exception => exact ⟨_, (h.select none).reset hc, fun c' hc' => List.mem_cons_of_mem c hc'⟩

theorem runEach_acts {cs overall} (h : t.Acts scene run id children f used g)
    (hcs : ∀ c ∈ cs, c ∈ children ∧ c ∉ used) (nodup : cs.Nodup) :
    ∃ used', t.Acts scene run id children f used' (t.runEach scene run cs overall g).2 := by
  induction cs generalizing g used overall with
  | nil => exact ⟨_, h⟩
  | cons c cs ih =>
      obtain ⟨hc, hnew⟩ := hcs c (by simp)
      have h := h.run hc hnew
      simp only [runEach]
      split
      · exact ih h (by grind) nodup.of_cons
      · exact ih (h.reset hc) (by grind) nodup.of_cons

theorem parallelFrom_acts {cs running} (h : t.Acts scene run id children f used g)
    (hcs : ∀ c ∈ cs, c ∈ children ∧ c ∉ used) (nodup : cs.Nodup) :
    ∃ used', t.Acts scene run id children f used' (t.parallelFrom scene run cs running g).2 := by
  induction cs generalizing g used running with
  | nil => exact ⟨_, h⟩
  | cons c cs ih =>
      obtain ⟨hc, hnew⟩ := hcs c (by simp)
      have h := h.run hc hnew
      simp only [parallelFrom]
      split
      · exact ih h (by grind) nodup.of_cons
      · exact ih (h.reset hc) (by grind) nodup.of_cons

theorem decorate_acts {map : Status → Status} :
    ∃ used', t.Acts scene run id children f used' (decorate run map children f).2 := by
  cases children with
  | nil => exact ⟨_, .start⟩
  | cons c cs => exact ⟨_, Acts.start.run (by simp) (by simp)⟩

theorem limit_acts {amount} :
    ∃ used', t.Acts scene run id children f used' (limit scene run id amount children f).2 := by
  cases children with
  | nil => exact ⟨_, .start⟩
  | cons c cs =>
      simp only [limit, List.head?_cons]
      split
      · exact ⟨_, .start⟩
      · have h : t.Acts scene run id (c :: cs) f [c] (run c f).2 := Acts.start.run (by simp) (by simp)
        rcases hr : run c f with ⟨s, g⟩
        rw [hr] at h
        dsimp only
        split
        · exact ⟨_, h⟩
        · exact ⟨_, h.complete⟩

theorem probabilitySelector_acts {weights} (nodup : children.Nodup) :
    ∃ used', t.Acts scene run id children f used' (t.probabilitySelector scene run id weights children f).2 := by
  simp only [probabilitySelector]
  split
  · exact ⟨_, .start⟩
  · rename_i chosen _
    have h : t.Acts scene run id children f [] f := .start
    obtain ⟨used', h, hsub⟩ := resetAll_acts h fun c hc => (List.mem_of_mem_eraseIdx hc : c ∈ children)
    cases hc : children[chosen]? with
    | none => exact ⟨_, h⟩
    | some c =>
        have hmem := List.mem_of_getElem? hc
        have hnew : c ∉ used' := fun hin => by
          have := hsub c hin
          simp only [List.not_mem_nil, or_false] at this
          exact not_mem_eraseIdx nodup hc this
        have h := h.run hmem hnew
        dsimp only
        split
        · exact ⟨_, h.select (some chosen)⟩
        · exact ⟨_, (h.select none).reset hmem⟩

/-- Whatever a node does that is no leaf, it does by these acts. -/
theorem perform_acts {s : Slot χ} (leaf : ∀ task, s.kind ≠ .task task) (nodup : s.children.Nodup) :
    ∃ used, t.Acts scene run id s.children f used (t.perform scene run id s f).2 := by
  have begun : t.Acts scene run id s.children f [] f := .start
  unfold perform
  split
  · exact sequenceFrom_acts begun (fun c hc => ⟨List.mem_of_mem_drop hc, by simp⟩)
      (nodup.sublist (List.drop_sublist _ _))
  · simp only [prioritySelector]
    generalize min ((f.selected scene id).getD 0) s.children.length = n
    obtain ⟨used, h, hsub⟩ := resetAll_acts begun fun c hc => List.mem_of_mem_take (i := n) hc
    have hcs : ∀ c ∈ s.children.drop n, c ∈ s.children ∧ c ∉ used := fun c hc =>
      ⟨List.mem_of_mem_drop hc, fun hin => by
        have := hsub c hin
        simp only [List.not_mem_nil, or_false] at this
        exact not_mem_take nodup hc this⟩
    obtain ⟨used', h', hrest⟩ := @priorityFrom_acts _ _ _ _ _ _ _ _ _ n _ h hcs
      (nodup.sublist (List.drop_sublist _ _))
    obtain ⟨used'', h'', _⟩ := resetAll_acts h' fun c hc => List.mem_of_mem_drop (hrest c hc)
    exact ⟨used'', h''⟩
  · exact probabilitySelector_acts nodup
  · have perm := (scene.tick.generator scene.entity (UInt64.ofNat id)).shuffle_perm s.children
    exact runEach_acts begun (fun c hc => ⟨perm.mem_iff.mp hc, by simp⟩) (perm.nodup_iff.mpr nodup)
  · simp only [parallel]
    obtain ⟨used, h⟩ := @parallelFrom_acts _ _ _ _ _ _ _ _ _ _ false begun (fun c hc => ⟨hc, by simp⟩) nodup
    split <;> rename_i hp <;> rw [hp] at h
    · exact ⟨_, h⟩
    · exact ⟨_, h.resetBelow⟩
  · exact decorate_acts
  · exact decorate_acts
  · exact decorate_acts
  · exact limit_acts
  · exact absurd ‹_› (leaf _)

end Behavior.BehaviorTree
