import Behavior.Proofs.Tree.Simulation
import Mathlib.Data.List.Forall2
/-!
# Tick by tick

Any number of entities sharing a tree and a memory behave, tick by tick, as if the interpreter ran the
hierarchy for each of them on memories of their own (`ticks_interpreted`).
-/

namespace Behavior

variable {χ : Type}

/-- A tick of one entity, and what happens before it to the character and to the blackboard. -/
structure Occasion (χ : Type) where
  scene : Scene
  character : χ → χ := id
  board : Blackboard → Blackboard := id

def Frame.begin (o : Occasion χ) (f : Frame χ) : Frame χ :=
  { f with character := o.character f.character, board := o.board f.board, journal := [], steps := [] }

def World.begin (o : Occasion χ) (w : World χ) : World χ :=
  { w with character := o.character w.character, board := o.board w.board, journal := [], steps := [] }

/-- What a tick of the interpreter gives: the status of the root, what is remembered for each entity, and
the world. -/
structure Moment (χ : Type) where
  status : Status
  recalls : EntityId → Recall
  world : World χ

mutual

/-- The records and completions of a hierarchy, parents before children. -/
def Recall.inOrder : Recall → List (NodeRecord × UInt32)
  | ⟨record, completions, inner⟩ => (record, completions) :: Recall.inOrderAll inner

def Recall.inOrderAll : List Recall → List (NodeRecord × UInt32)
  | [] => []
  | r :: rs => r.inOrder ++ Recall.inOrderAll rs

end

namespace TreeNode

mutual

theorem inOrder_recalled {m : Memory} {e : EntityId} : (n : TreeNode χ) → {id : Nat} →
    (n.recalled m e id).inOrder = (List.range' id n.count).map fun k => (m.getD k e, m.completions k e)
  | ⟨_, _, _, children⟩, id => by
      rw [recalled, Recall.inOrder, inOrderAll_recalledAll children, count, Nat.add_comm 1, List.range'_succ,
        List.map_cons]

theorem inOrderAll_recalledAll {m : Memory} {e : EntityId} : (ns : List (TreeNode χ)) → {id : Nat} →
    Recall.inOrderAll (recalledAll m e id ns) =
      (List.range' id (countAll ns)).map fun k => (m.getD k e, m.completions k e)
  | [], _ => rfl
  | n :: ns, id => by
      rw [recalledAll, Recall.inOrderAll, inOrder_recalled n, inOrderAll_recalledAll ns, countAll,
        ← List.range'_append_1, List.map_append]

end

end TreeNode

variable [Character χ]

def BehaviorTree.ticks (t : BehaviorTree χ) : List (Occasion χ) → Frame χ → List (Status × Frame χ)
  | [], _ => []
  | o :: os, f =>
    let r := t.execute o.scene NodeId.root (f.begin o)
    r :: t.ticks os r.2

def TreeNode.ticks (root : TreeNode χ) : List (Occasion χ) → (EntityId → Recall) → World χ → List (Moment χ)
  | [], _, _ => []
  | o :: os, recalls, w =>
    let (status, x) := root.interpret o.scene NodeId.root ⟨recalls o.scene.entity, w.begin o⟩
    let recalls := fun e => if e = o.scene.entity then x.recalled else recalls e
    { status, recalls, world := x.world } :: root.ticks os recalls x.world

/-- A tick of the tree and a tick of the hierarchy ended alike: in the same status and the same world, and
with the same things remembered of each node for each entity. -/
structure Alike (root : TreeNode χ) (r : Status × Frame χ) (m : Moment χ) : Prop where
  status : r.1 = m.status
  world : r.2.world = m.world
  memory (e : EntityId) : (m.recalls e).inOrder =
    (List.range root.count).map fun n => (r.2.memory.getD n e, r.2.memory.completions n e)

/-- If each entity is remembered alike, all further ticks end alike. -/
theorem BehaviorTree.Holds.ticks_alike {t : BehaviorTree χ} {root : TreeNode χ} (nested : t.Nested)
    (h : t.Holds NodeId.root root) {os : List (Occasion χ)} {f : Frame χ} {recalls : EntityId → Recall}
    (hrecalls : ∀ e, recalls e = root.recalled f.memory e NodeId.root) :
    List.Forall₂ (Alike root) (t.ticks os f) (root.ticks os recalls f.world) := by
  induction os generalizing f recalls with
  | nil => exact .nil
  | cons o os ih =>
      have hsite : (⟨recalls o.scene.entity, f.world.begin o⟩ : Site χ) =
          root.site o.scene.entity NodeId.root (f.begin o) := by
        rw [hrecalls]; rfl
      simp only [BehaviorTree.ticks, TreeNode.ticks, hsite, h.interpret_site nested]
      have hwithin : t.Within o.scene NodeId.root (f.begin o) _ := nested.within_execute NodeId.root (f.begin o)
      generalize t.execute o.scene NodeId.root (f.begin o) = r at hwithin
      have hafter : ∀ e, (if e = o.scene.entity then (root.site o.scene.entity NodeId.root r.2).recalled
          else recalls e) = root.recalled r.2.memory e NodeId.root := by
        intro e
        split
        · rename_i he; rw [he]; rfl
        · rename_i he
          rw [hrecalls]
          exact (TreeNode.recalled_congr root fun k _ _ => hwithin.agree k e fun hin => he hin.2).symm
      refine .cons ⟨rfl, rfl, fun e => ?_⟩ (ih hafter)
      dsimp only
      rw [hafter, TreeNode.inOrder_recalled root, List.range_eq_range']
      rfl

/-- The executions of a laid out tree on a table keyed by node and entity, beginning with an empty one, are
those of the interpreter on the hierarchy. -/
theorem ticks_interpreted (name : String) (root : TreeNode χ) (os : List (Occasion χ)) (character : χ)
    (board : Blackboard) :
    List.Forall₂ (Alike root) ((BehaviorTree.ofNode name root).ticks os { character, memory := {}, board })
      (root.ticks os (fun _ => root.blank) { character, board }) :=
  (BehaviorTree.holds_ofNode name root).ticks_alike (BehaviorTree.nested_ofNode name root)
    fun _ => (TreeNode.recalled_empty root).symm

end Behavior
