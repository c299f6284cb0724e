import Behavior.Proofs.Agent.Tracing
import Behavior.Proofs.Tree.Containment
/-!
# Agents with their faults contained

However often the leaves of an agent fail or panic, it lives as the agent whose leaves report exceptions instead
(`contained_run`).
-/

namespace Behavior

variable {χ : Type}

namespace Agent

/-! ## The updates of a run -/

section Runs

variable [Character χ]

def turn? (a : Agent χ) : Operation χ → Option (Turn χ)
  | .update home delta => some (a.update home delta)
  | _ => none

/-- The updates among the operations of a run. -/
def turns (a : Agent χ) : List (Operation χ) → List (Turn χ)
  | [] => []
  | op :: ops => (a.turn? op).toList ++ (a.perform op).turns ops

end Runs

/-! ## Agents apart from the trace -/

def contained (a : Agent χ) : Agent χ := { a with behavior := a.behavior.contained }

def untraced (a : Agent χ) : Agent χ := { a with board := a.board.untraced, received := [] }

def audience (a : Agent χ) : Audience := ⟨a.board, a.received⟩

theorem exists_of_untraced_eq {a b : Agent χ} (h : b.untraced = a.untraced) :
    ∃ board received, b = { a with board, received } ∧ board.untraced = a.board.untraced := by
  refine ⟨b.board, b.received, ?_, congrArg board h⟩
  cases a
  cases b
  simp only [untraced, mk.injEq] at h ⊢
  simp [h]

variable [Character χ]

/-- The second agent goes with the first one through these operations: each update answers the same and leaves
the same behind apart from the trace, both take the same steps, and both tell the same story, in which only the
first one tells of the faults. -/
structure Contains (a b : Agent χ) (ops : List (Operation χ)) : Prop where
  turns : (b.turns ops).map (fun u => (u.status, u.agent.untraced)) =
    (a.turns ops).map fun u => (u.status, u.agent.contained.untraced)
  final : (b.run ops).untraced = (a.run ops).contained.untraced
  story : ∃ story : List (Passage χ), (∀ p ∈ story, p.Fits a.behavior) ∧
    ((a.turns ops).flatMap Turn.steps).map Step.untraced = story.flatMap Passage.steps ∧
    ((b.turns ops).flatMap Turn.steps).map Step.untraced = story.flatMap Passage.steps ∧
    a.audience.Hears (story.flatMap Passage.loud) (a.run ops).audience ∧
    b.audience.Hears (story.flatMap Passage.quiet) (b.run ops).audience

variable {a b : Agent χ} {op : Operation χ} {ops : List (Operation χ)} {home : Option Roster} {delta : UInt64}

theorem Contains.nil (hb : b.untraced = a.contained.untraced) : Contains a b [] where
  turns := rfl
  final := hb
  story := ⟨[], by simp, rfl, rfl, .refl, .refl⟩

theorem Contains.cons (h : Contains a b [op]) (hbehavior : (a.perform op).behavior = a.behavior)
    (h' : Contains (a.perform op) (b.perform op) ops) : Contains a b (op :: ops) where
  turns := by
    have hturns := h.turns
    simp only [Agent.turns, List.append_nil, List.map_append] at hturns ⊢
    rw [hturns, h'.turns]
  final := h'.final
  story := by
    obtain ⟨story, hfits, hsteps, hsteps', hloud, hquiet⟩ := h.story
    obtain ⟨more, hfits', hmore, hmore', hloud', hquiet'⟩ := h'.story
    rw [hbehavior] at hfits'
    simp only [Agent.turns, List.append_nil] at hsteps hsteps'
    refine ⟨story ++ more, fun p hp => (List.mem_append.mp hp).elim (hfits p) (hfits' p), ?_, ?_, ?_, ?_⟩
    · rw [Agent.turns, List.flatMap_append, List.map_append, hsteps, hmore, List.flatMap_append]
    · rw [Agent.turns, List.flatMap_append, List.map_append, hsteps', hmore', List.flatMap_append]
    · rw [List.flatMap_append]
      exact hloud.trans hloud'
    · rw [List.flatMap_append]
      exact hquiet.trans hquiet'

end Agent

/-! ## Tasks and trees that take no notice of the trace -/

theorem Task.ignoresTrace_idle {millis : UInt64} : Task.IgnoresTrace (χ := χ) (.idle millis) := by
  intro context w
  simp only [Task.idle]
  split
  · exact ⟨rfl, by simp⟩
  · split <;> exact ⟨rfl, by simp [Workspace.untraced]⟩

theorem Condition.ignoresTrace_trivial [Character χ] : Condition.IgnoresTrace (.trivial : Condition χ) :=
  fun _ _ _ => rfl

/-- The tasks and conditions of a hierarchy neither read nor change the trace. -/
def TreeNode.IgnoresTrace [Character χ] (root : TreeNode χ) : Prop :=
  ∀ n ∈ root.preorder, n.condition.IgnoresTrace ∧
    ∀ task, n.kind = .task task → task.LeavesTrace ∧ task.IgnoresTrace

theorem BehaviorTree.ignoresTrace_ofNode [Character χ] (name : String) {root : TreeNode χ}
    (h : root.IgnoresTrace) : (ofNode name root).IgnoresTrace where
  leaves hs hk := by
    obtain ⟨n, hn, _, rfl⟩ := exists_holds_of_slot hs
    exact ((h n hn).2 _ hk).1
  tasks hs hk := by
    obtain ⟨n, hn, _, rfl⟩ := exists_holds_of_slot hs
    exact ((h n hn).2 _ hk).2
  conditions hs := by
    obtain ⟨n, hn, _, rfl⟩ := exists_holds_of_slot hs
    exact (h n hn).1

def Task.stumble : Task Unit := fun _ w =>
  (.fault (.message "stumbled"), { w with board := w.board.insert ⟨1⟩ (1 : Int64) })

theorem Task.leavesTrace_stumble : Task.stumble.LeavesTrace := by
  intro context w
  simp [Task.stumble, Blackboard.insert, Std.ExtTreeMap.getElem?_insert, Trace.logKey, Trace.sinkKey]

theorem Task.ignoresTrace_stumble : Task.stumble.IgnoresTrace := by
  intro context w
  refine ⟨rfl, Workspace.untraced_eq_iff.mpr ⟨rfl, rfl, Blackboard.untraced_eq_iff.mpr fun id hlog hsink => ?_⟩⟩
  simp [Task.stumble, Blackboard.insert, Std.ExtTreeMap.getElem?_insert, Workspace.untraced,
    Blackboard.getElem?_untraced, hlog, hsink]

/-- A sequence of a leaf that finishes at once and one that leaves a mark on the blackboard and fails. -/
def TreeNode.stumbling : TreeNode Unit :=
  { TreeNode.ofKind .sequence with children := [.idle 0, .leaf { name := "Stumble" } .stumble] }

theorem TreeNode.ignoresTrace_stumbling : TreeNode.stumbling.IgnoresTrace := by
  intro n hn
  simp only [stumbling, preorder_eq, preorderAll, ofKind, idle, leaf, List.append_nil, List.cons_append,
    List.nil_append, List.mem_cons, List.not_mem_nil, or_false] at hn
  rcases hn with rfl | rfl | rfl
  · exact ⟨Condition.ignoresTrace_trivial, fun task hk => by cases hk⟩
  · refine ⟨Condition.ignoresTrace_trivial, fun task hk => ?_⟩
    cases hk
    exact ⟨Task.leavesTrace_idle, Task.ignoresTrace_idle⟩
  · refine ⟨Condition.ignoresTrace_trivial, fun task hk => ?_⟩
    cases hk
    exact ⟨Task.leavesTrace_stumble, Task.ignoresTrace_stumble⟩

end Behavior
