import Behavior.Proofs.Tree.Locality
/-!
# What the steps of an execution tell

A node that ended as running was let in by its guard, and if it is a leaf, it was called. Only leaves are
called.
-/

namespace Behavior.BehaviorTree

variable {χ : Type}

/-- Every node that ended as running ran, and every call is one of a leaf. -/
structure Accounted (t : BehaviorTree χ) (steps : List (Step χ)) : Prop where
  began {n : Nat} : .ended n .running ∈ steps → .began n true ∈ steps
  called {n : Nat} {s task} : .ended n .running ∈ steps → t.slot? n = some s → s.kind = .task task →
    ∃ context character timer board, .called context character timer board ∈ steps ∧ context.node = n
  leaf {context character timer board} : .called context character timer board ∈ steps →
    ∃ s task, t.slot? context.node = some s ∧ s.kind = .task task

variable {t : BehaviorTree χ} {scene : Scene} {run : Runner χ} {id : Nat} {s : Slot χ} {f g : Frame χ}
  {steps new : List (Step χ)}

theorem accounted_nil : t.Accounted [] := ⟨nofun, nofun, nofun⟩

/-- Steps that end no node as running do no harm, as long as they call leaves only. -/
theorem Accounted.append (h : t.Accounted steps) (hended : ∀ n, .ended n .running ∉ new)
    (hleaf : ∀ context character timer board, .called context character timer board ∈ new →
      ∃ s task, t.slot? context.node = some s ∧ s.kind = .task task) : t.Accounted (steps ++ new) := by
  refine ⟨fun {n} hn => ?_, fun {n s task} hn hs hk => ?_, fun hcall => ?_⟩
  · have hn := (List.mem_append.mp hn).resolve_right (hended n)
    exact List.mem_append_left _ (h.began hn)
  · have hn := (List.mem_append.mp hn).resolve_right (hended n)
    obtain ⟨context, character, timer, board, hcall, hnode⟩ := h.called hn hs hk
    exact ⟨context, character, timer, board, List.mem_append_left _ hcall, hnode⟩
  · exact (List.mem_append.mp hcall).elim h.leaf (hleaf _ _ _ _)

/-- A node that ran may end as running; a leaf that ran was called. -/
theorem Accounted.append_ended (h : t.Accounted steps) {r : Status} (hs : t.slot? id = some s)
    (hbegan : r = .running → .began id true ∈ steps)
    (hcalled : r = .running → ∀ task, s.kind = .task task →
      ∃ context character timer board, .called context character timer board ∈ steps ∧ context.node = id) :
    t.Accounted (steps ++ [.ended id r]) := by
  have hlast : ∀ {n}, .ended n .running ∈ steps ++ [.ended id r] →
      .ended n .running ∈ steps ∨ n = id ∧ r = .running := by
    intro n hn
    rcases List.mem_append.mp hn with hn | hn
    · exact .inl hn
    · rw [List.mem_singleton, Step.ended.injEq] at hn
      exact .inr ⟨hn.1, hn.2.symm⟩
  refine ⟨fun {n} hn => ?_, fun {n s' task} hn hs' hk => ?_, fun hcall => ?_⟩
  · rcases hlast hn with hn | ⟨rfl, hr⟩
    · exact List.mem_append_left _ (h.began hn)
    · exact List.mem_append_left _ (hbegan hr)
  · have hcalled : ∃ context character timer board, .called context character timer board ∈ steps ∧
        context.node = n := by
      rcases hlast hn with hn | ⟨rfl, hr⟩
      · exact h.called hn hs' hk
      · obtain rfl := Option.some.inj (hs.symm.trans hs')
        exact hcalled hr task hk
    obtain ⟨context, character, timer, board, hcall, hnode⟩ := hcalled
    exact ⟨context, character, timer, board, List.mem_append_left _ hcall, hnode⟩
  · exact (List.mem_append.mp hcall).elim h.leaf fun h => by simp at h

theorem Acts.accounted {children used} (h : t.Acts scene run id children f used g)
    (hrun : ∀ c ∈ children, ∀ f, t.Accounted f.steps → t.Accounted (run c f).2.steps)
    (hf : t.Accounted f.steps) : t.Accounted g.steps := by
  induction h with
  | start => exact hf
  | run _ hc _ ih => exact hrun _ hc _ ih
  | reset _ _ ih => rwa [steps_reset]
  | resetBelow _ ih => rwa [steps_resetBelow]
  | select _ _ ih => exact ih
  | complete _ ih => exact ih

variable [Character χ]

theorem accounted_visit (nested : t.Nested) (hs : t.slot? id = some s)
    (within : ∀ c ∈ s.children, ∀ f, t.Within scene c f (run c f).2)
    (hrun : ∀ c ∈ s.children, ∀ f, t.Accounted f.steps → t.Accounted (run c f).2.steps)
    (hf : t.Accounted f.steps) : t.Accounted (t.visit scene run id s f).2.steps := by
  have hjudge : t.Accounted (judge scene id s f).2.steps := by
    rw [steps_judge]
    exact hf.append (by simp) (by simp)
  simp only [visit, attempt, Frame.steps_note, Frame.steps_record]
  cases hb : (judge scene id s f).1 with
  | false => exact hjudge.append_ended hs (by simp) (by simp)
  | true =>
      simp only [if_true]
      have hbegan : .began id true ∈ (judge scene id s f).2.steps := by simp [steps_judge, hb]
      generalize judge scene id s f = j at hjudge hbegan
      by_cases hk : ∃ task, s.kind = .task task
      · obtain ⟨task, hk⟩ := hk
        simp only [perform, hk]
        refine Accounted.append_ended ?_ hs (fun _ => ?_) fun _ task' _ => ?_ <;> rw [steps_runTask]
        · refine hjudge.append (by simp) fun context character timer board hcall => ⟨s, task, ?_, hk⟩
          simp only [List.mem_singleton, Step.called.injEq] at hcall
          rw [hcall.1]
          exact hs
        · exact List.mem_append_left _ hbegan
        · exact ⟨taskContext scene id j.2, _, _, _, List.mem_append_right _ (List.mem_singleton_self _), rfl⟩
      · obtain ⟨used, h⟩ := perform_acts (fun task hk' => hk ⟨task, hk'⟩) (nested.nodup hs)
        obtain ⟨new, hsteps, _⟩ := (h.within nested hs within).1.steps
        refine (h.accounted hrun hjudge).append_ended hs (fun _ => ?_) fun _ task hk' => absurd ⟨task, hk'⟩ hk
        rw [hsteps]
        exact List.mem_append_left _ hbegan

theorem Nested.accounted_execute (nested : t.Nested) (id : NodeId) (hf : t.Accounted f.steps) :
    t.Accounted (t.execute scene id f).2.steps := by
  cases hs : t.slot? id with
  | none => rwa [execute_of_none hs]
  | some s =>
      refine nested.induction
        (fun id => ∀ f, t.Accounted f.steps → t.Accounted (t.execute scene id f).2.steps) ?_ hs f hf
      intro id s hs ih f hf
      rw [nested.execute_of_slot hs]
      exact accounted_visit nested hs (fun c _ => nested.within_execute c) ih hf

end Behavior.BehaviorTree
