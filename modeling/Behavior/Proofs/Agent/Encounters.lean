import Behavior.Proofs.Agent.Sequence
import Behavior.Proofs.Tree.Selectors
/-!
# What an update does to one node

In an update a node is not executed, or once, on what was remembered about it before; otherwise it is left alone, or
forgotten (`encounter_update`). What holds in every agent that can come about is shown by following it through the
operations (`Reachable`).
-/

namespace Behavior.Agent

open BehaviorTree Step

variable {χ : Type} [Character χ]

section

variable (a : Agent χ) (home : Option Roster) (delta : UInt64)

/-- The frame that an update leaves. -/
def frameAfter : Frame χ := if a.paused then a.frame delta else (a.execution home delta).2

/-- What an update does to a node: it leaves it alone or forgets it, or executes it once in between. -/
inductive Encounter (id : NodeId) (s : Slot χ) : Prop where
  | missed (misses : a.behavior.Misses (a.scene home delta) id (a.frame delta) (a.frameAfter home delta))
  | met {f : Frame χ} (spares : a.behavior.Spares (a.scene home delta) id (a.frame delta) f)
      (recounts : a.behavior.Recounts (a.scene home delta) id s f (a.update home delta).steps)
      (misses : a.behavior.Misses (a.scene home delta) id (a.behavior.execute (a.scene home delta) id f).2
        (a.frameAfter home delta))

end

variable {a : Agent χ} {home : Option Roster} {delta : UInt64} {name : String} {root : TreeNode χ} {id : Nat}
  {s : Slot χ}

theorem memory_update : (a.update home delta).agent.memory = (a.frameAfter home delta).memory := by
  cases hp : a.paused with
  | true => simp [update_of_paused hp, frameAfter, hp, frame]
  | false => simp [update_of_awake hp, frameAfter, hp]

theorem steps_update : (a.update home delta).steps = (a.frameAfter home delta).steps := by
  cases hp : a.paused with
  | true => simp [update_of_paused hp, frameAfter, hp, frame]
  | false => simp [update_of_awake hp, frameAfter, hp]

theorem encounter_update (hb : a.behavior = .ofNode name root) (hs : a.behavior.slot? id = some s) :
    a.Encounter home delta id s := by
  cases hp : a.paused with
  | true =>
      refine .missed (Spares.misses ?_)
      rw [frameAfter, if_pos hp]
      exact .refl
  | false =>
      have nested : a.behavior.Nested := hb ▸ nested_ofNode name root
      have hroot : a.behavior.slot? NodeId.root = some (root.slot NodeId.root) := hb ▸ (holds_ofNode name root).slot
      have hid : id ∈ a.behavior.subtree NodeId.root := by
        rw [hb] at hs ⊢
        exact mem_subtree_root hs
      have hafter : a.frameAfter home delta = (a.execution home delta).2 := by simp [frameAfter, hp]
      rcases @Nested.encounters_execute _ _ (a.scene home delta) _ _ _ _ nested hroot hid (a.frame delta) with
        hmisses | ⟨f, hspares, hmisses⟩
      · exact .missed (hafter ▸ hmisses)
      · refine .met hspares ?_ (hafter ▸ hmisses)
        obtain ⟨before, hbefore, hquiet⟩ := hspares.1
        obtain ⟨after, hend, hquiet'⟩ := hmisses.1
        have hsteps : (a.update home delta).steps =
            before ++ added (a.behavior.execute (a.scene home delta)) (id, f) ++ after := by
          have hend : (a.execution home delta).2.steps = _ := hend
          rw [steps_update, hafter, hend, (nested.steps_added _ id f).1, hbefore]
          rfl
        rw [hsteps]
        exact (nested.recounts_execute _ hs f).surround nested hs hquiet hquiet'

/-- An update that misses a node takes no step in its subtree. -/
theorem silent_of_misses (misses : a.behavior.Misses (a.scene home delta) id (a.frame delta) (a.frameAfter home delta)) :
    ∀ st ∈ (a.update home delta).steps, st.node ∉ a.behavior.subtree id := by
  obtain ⟨new, hsteps, hnew⟩ := misses.1
  rwa [steps_update, hsteps, frame, List.nil_append]

theorem not_mem_executed_of_misses
    (misses : a.behavior.Misses (a.scene home delta) id (a.frame delta) (a.frameAfter home delta)) {n : NodeId}
    (hn : n ∈ a.behavior.subtree id) : n ∉ executed (a.update home delta).steps := fun h =>
  forall_executed (P := (· ∉ a.behavior.subtree id)) (silent_of_misses misses) n h hn

theorem results_of_misses
    (misses : a.behavior.Misses (a.scene home delta) id (a.frame delta) (a.frameAfter home delta)) {n : NodeId}
    (hn : n ∈ a.behavior.subtree id) : results [n] (a.update home delta).steps = [] :=
  results_eq_nil fun st hst hin => silent_of_misses misses st hst (List.mem_singleton.mp hin ▸ hn)

/-- An operation in which the guard of a node is evaluated is an update that executes the node. -/
theorem exists_met_of_began {op : Operation χ} (hb : a.behavior = .ofNode name root)
    (hs : a.behavior.slot? id = some s) {allowed : Bool} (began : .began id allowed ∈ a.stepsOf op) :
    ∃ home delta f, op = .update home delta ∧ a.behavior.Spares (a.scene home delta) id (a.frame delta) f ∧
      a.behavior.Recounts (a.scene home delta) id s f (a.update home delta).steps ∧
      a.behavior.Misses (a.scene home delta) id (a.behavior.execute (a.scene home delta) id f).2
        (a.frameAfter home delta) ∧
      (judge (a.scene home delta) id s f).1 = allowed := by
  cases op with
  | update home delta =>
      have nested : a.behavior.Nested := hb ▸ nested_ofNode name root
      cases @encounter_update _ _ a home delta _ _ _ _ hb hs with
      | missed misses => exact absurd (nested.mem_self hs) (silent_of_misses misses _ began)
      | @met f spares recounts misses =>
          exact ⟨home, delta, f, rfl, spares, recounts, misses, ((recounts.visited.began allowed).mp began).symm⟩
  | resetState | setBehavior | setCharacter | setPaused | setSeed | setZone | changeBoard | changeCharacter =>
      cases began

/-- What an update that keeps the entry of a node leaves as it is after the node has been executed, or missed. -/
theorem Keeps.same (keeps : a.Keeps id (.update home delta)) (hself : id ∈ a.behavior.subtree id)
    (hentry : id ∈ executed (a.update home delta).steps ∨ (a.memory.get? id a.entity).isSome) {f : Frame χ}
    (misses : a.behavior.Misses (a.scene home delta) id f (a.frameAfter home delta)) :
    ∀ n ∈ a.behavior.subtree id, (a.update home delta).agent.memory.get? n a.entity = f.memory.get? n a.entity := by
  rw [memory_update]
  cases misses.2.2 with
  | inl same => exact same
  | inr forgotten =>
      have hkept : ((a.update home delta).agent.memory.get? id a.entity).isSome := keeps.entry hentry
      have hgone : (a.frameAfter home delta).memory.get? id a.entity = none := forgotten id hself
      rw [memory_update, hgone] at hkept
      cases hkept

/-! ## Reachable agents -/

/-- Agents as they are made, and what operations make of them. -/
inductive Reachable : Agent χ → Prop where
  | fresh (entity : EntityId) (character : χ) (name : String) (root : TreeNode χ) :
      Reachable { entity, character, behavior := .ofNode name root }
  | perform {a : Agent χ} (reachable : Reachable a) (op : Operation χ) : Reachable (a.perform op)

theorem Reachable.run (reachable : a.Reachable) (ops : List (Operation χ)) : (a.run ops).Reachable := by
  induction ops generalizing a with
  | nil => exact reachable
  | cons op ops ih => exact ih (reachable.perform op)

theorem Reachable.behavior (reachable : a.Reachable) : ∃ name root, a.behavior = .ofNode name root := by
  induction reachable with
  | fresh entity character name root => exact ⟨name, root, rfl⟩
  | @perform a _ op ih =>
      cases op with
      | update home delta => exact (behavior_update (a := a)).symm ▸ ih
      | setBehavior name root => exact ⟨name, root, rfl⟩
      | setPaused | resetState | setCharacter | setSeed | setZone | changeBoard | changeCharacter => exact ih

/-- What a selector remembers of its children is what is remembered of the selected one. -/
theorem Reachable.committed (reachable : a.Reachable) (hs : a.behavior.slot? id = some s) (hk : s.kind.Commits) :
    a.behavior.Committed id s a.entity a.memory := by
  induction reachable with
  | fresh entity character name root =>
      exact committed_of_forgotten (nested_ofNode name root) hs fun _ _ => Memory.get?_empty
  | @perform a reachable op ih =>
      cases op with
      | update home delta =>
          obtain ⟨name, root, hb⟩ := reachable.behavior
          have nested : a.behavior.Nested := hb ▸ nested_ofNode name root
          simp only [Agent.perform, behavior_update, entity_update, memory_update] at hs ⊢
          cases @encounter_update _ _ a home delta _ _ _ _ hb hs with
          | missed misses => exact (ih hs).misses nested hs misses
          | met spares _ misses =>
              have before := (ih hs).misses nested hs spares.misses
              exact (nested.committed_execute hs hk before).misses nested hs misses
      | resetState | setCharacter =>
          obtain ⟨name, root, hb⟩ := reachable.behavior
          have nested : a.behavior.Nested := hb ▸ nested_ofNode name root
          exact committed_of_forgotten nested hs fun _ _ => Memory.get?_empty
      | setBehavior name root =>
          exact committed_of_forgotten (nested_ofNode name root) hs fun _ _ => Memory.get?_empty
      | setPaused | setSeed | setZone | changeBoard | changeCharacter => exact ih hs

end Behavior.Agent
