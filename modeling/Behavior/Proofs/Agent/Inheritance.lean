import Behavior.Proofs.Agent.Containment
/-!
# What a character inherits

An agent that takes over another character goes on as a new agent for that character, except that it keeps the
blackboard. Main statement: `Agent.sights_setCharacter_iff`.
-/

namespace Behavior

variable {χ : Type}

/-! ## What the sink received before -/

namespace Frame

variable {f : Frame χ} {scene : Scene} {n : NodeId} {past : List TraceEvent}

/-- The same frame, but for a sink that has received these events before. -/
def hearing (past : List TraceEvent) (f : Frame χ) : Frame χ := { f with received := past ++ f.received }

theorem trace_hearing {e : TraceEvent} : (f.hearing past).trace e = (f.trace e).hearing past := by
  simp [trace, hearing]

theorem forgetTraced_hearing : (f.hearing past).forgetTraced scene n = (f.forgetTraced scene n).hearing past := by
  have hforget : (f.hearing past).forget scene n = (f.forget scene n).hearing past := rfl
  have hstatus : (f.hearing past).status scene n = f.status scene n := rfl
  simp only [forgetTraced, hforget, hstatus]
  split
  · rfl
  · exact trace_hearing

theorem record_hearing {previous status : Status} :
    (f.hearing past).record scene n previous status = (f.record scene n previous status).hearing past := by
  simp only [record]
  split
  · rfl
  · rw [← trace_hearing]
    rfl

theorem faulted_hearing {fault : Fault} :
    (f.hearing past).faulted scene n fault = (f.faulted scene n fault).hearing past := by
  simp only [faulted]
  rw [← trace_hearing]
  rfl

end Frame

namespace BehaviorTree

open Behavior.Frame

variable {t : BehaviorTree χ} {scene : Scene} {id : NodeId} {past : List TraceEvent} {f : Frame χ}

theorem runTask_hearing {task : Task χ} :
    runTask scene id task (f.hearing past) =
      ((runTask scene id task f).1, (runTask scene id task f).2.hearing past) := by
  have hwork : work scene id task (f.hearing past) = work scene id task f := rfl
  rw [runTask_eq, runTask_eq, hwork]
  cases (work scene id task f).1.result with
  | ok status => rfl
  | error fault =>
      have hworked (w : Workspace χ) : (f.hearing past).worked scene id w = (f.worked scene id w).hearing past := rfl
      simp only [hworked, faulted_hearing]

theorem lockstep_hearing : Lockstep t t scene fun f g => g = f.hearing past where
  subtree _ := rfl
  memory := by rintro f g rfl; rfl
  forget := by rintro f g n rfl; rfl
  forgetTraced := by rintro f g n rfl; exact forgetTraced_hearing
  setSelected := by rintro f g n i rfl; rfl
  complete := by rintro f g n rfl; rfl

variable [Character χ]

theorem execute_hearing :
    t.execute scene id (f.hearing past) =
      ((t.execute scene id f).1, (t.execute scene id f).2.hearing past) := by
  have h : Together (fun f g => g = f.hearing past) (t.execute scene id f) (t.execute scene id (f.hearing past)) := by
    refine lockstep_hearing.execute ?_ ?_ ?_ rfl
    · rintro id s f g rfl
      exact ⟨_, _, _, rfl, rfl, rfl⟩
    · rintro id task f g rfl
      exact ⟨_, _, _, rfl, runTask_hearing, rfl⟩
    · rintro id previous status f g rfl
      rw [record_hearing]
      rfl
  obtain ⟨status, f', g', hf, hg, rfl⟩ := h
  rw [hf, hg]

end BehaviorTree

namespace Agent

def hearing (past : List TraceEvent) (a : Agent χ) : Agent χ := { a with received := past ++ a.received }

/-! ## What is seen of an agent -/

/-- What an operation shows: what it answers, if it is an update, with the steps and the journal; and then what the
agent remembers, its snapshot, the log, and the events that the sink has received meanwhile. -/
structure Sight (χ : Type) where
  answer : Option (Status × List (Step χ) × List Entry)
  memory : Memory
  snapshot : AgentSnapshot
  log : Option TraceLog
  heard : List TraceEvent

variable [Character χ] {a : Agent χ} {op : Operation χ} {ops : List (Operation χ)} {past : List TraceEvent}
  {home : Option Roster} {delta : UInt64}

def sightsFrom (past : Nat) (a : Agent χ) : List (Operation χ) → List (Sight χ)
  | [] => []
  | op :: ops =>
    { answer := (a.turn? op).map fun u => (u.status, u.steps, u.journal)
      memory := (a.perform op).memory
      snapshot := (a.perform op).snapshot
      log := (a.perform op).board.get? Trace.logKey
      heard := (a.perform op).received.drop past } :: (a.perform op).sightsFrom past ops

/-- What the operations of a run show. -/
def sights (a : Agent χ) (ops : List (Operation χ)) : List (Sight χ) := a.sightsFrom a.received.length ops

theorem update_hearing :
    (a.hearing past).update home delta =
      { a.update home delta with agent := (a.update home delta).agent.hearing past } := by
  have hexecution : (a.hearing past).execution home delta =
      ((a.execution home delta).1, (a.execution home delta).2.hearing past) :=
    BehaviorTree.execute_hearing (f := a.frame delta)
  cases hp : a.paused with
  | true =>
      rw [update_of_paused hp, update_of_paused (a := a.hearing past) hp]
      rfl
  | false =>
      rw [update_of_awake hp, update_of_awake (a := a.hearing past) hp, hexecution]
      rfl

theorem perform_hearing : (a.hearing past).perform op = (a.perform op).hearing past := by
  cases op with
  | update home delta => simp only [perform, update_hearing]
  | setPaused | resetState | setBehavior | setCharacter | setSeed | setZone | changeBoard | changeCharacter => rfl

theorem sightsFrom_hearing {n : Nat} :
    (a.hearing past).sightsFrom (past.length + n) ops = a.sightsFrom n ops := by
  induction ops generalizing a with
  | nil => rfl
  | cons op ops ih =>
      have hanswer : ((a.hearing past).turn? op).map (fun u => (u.status, u.steps, u.journal)) =
          (a.turn? op).map fun u => (u.status, u.steps, u.journal) := by
        cases op with
        | update home delta => simp only [turn?, update_hearing]; rfl
        | setPaused | resetState | setBehavior | setCharacter | setSeed | setZone | changeBoard | changeCharacter =>
            rfl
      have hheard (b : Agent χ) : (b.hearing past).received.drop (past.length + n) = b.received.drop n := by
        simp [hearing]
      simp only [sightsFrom, hanswer, perform_hearing, ih, hheard]
      rfl

/-- What has been received before is not seen. -/
theorem sights_hearing : (a.hearing past).sights ops = a.sights ops := by
  rw [sights, sights, hearing, List.length_append]
  exact sightsFrom_hearing

/-! ## Taking over a character -/

/-- A new agent for a character, with the same behaviour, zone and seed, and paused or not as this one. -/
def renewed (a : Agent χ) (entity : EntityId) (character : χ) : Agent χ where
  entity
  character
  behavior := a.behavior
  zone := a.zone
  seed := a.seed
  paused := a.paused

theorem sights_setCharacter (a : Agent χ) (entity : EntityId) (character : χ) (ops : List (Operation χ)) :
    (a.setCharacter entity character).sights ops =
      { a.renewed entity character with board := a.board }.sights ops := by
  have h : a.setCharacter entity character =
      ({ a.renewed entity character with board := a.board } : Agent χ).hearing a.received := by
    simp [setCharacter, resetState, renewed, hearing]
  rw [h, sights_hearing]

/-- The blackboard with which a leaf is called. -/
def Sight.boards (s : Sight χ) : List Blackboard :=
  (s.answer.toList.flatMap fun answer => answer.2.1).filterMap fun
    | .called _ _ _ board => some board
    | _ => none

/-- Has a new behaviour of one leaf look at the blackboard. -/
def probe : List (Operation χ) := [.setBehavior "" (.idle 0), .setPaused false, .update none 0]

theorem boards_probe : (a.sights probe).flatMap Sight.boards = [a.board] := by
  rfl

/-- After a change of the character an agent shows in every run what a new one with the old blackboard shows, and so
what a new one shows if and only if there was nothing on the blackboard. -/
theorem sights_setCharacter_iff (a : Agent χ) (entity : EntityId) (character : χ) :
    (∀ ops, (a.setCharacter entity character).sights ops =
      { a.renewed entity character with board := a.board }.sights ops) ∧
    ((∀ ops, (a.setCharacter entity character).sights ops = (a.renewed entity character).sights ops) ↔
      a.board = {}) := by
  refine ⟨sights_setCharacter a entity character, fun h => ?_, fun hboard ops => ?_⟩
  · have hboards := congrArg (List.flatMap Sight.boards) (h probe)
    rw [boards_probe, boards_probe] at hboards
    exact List.singleton_inj.mp hboards
  · rw [sights_setCharacter, hboard]
    rfl

end Agent

/-! ## A mark that is left behind -/

/-- A leaf that counts up in a slot of the blackboard, and then one that waits until two have been counted. -/
def TreeNode.counting : TreeNode Unit :=
  { TreeNode.ofKind .sequence with
    children :=
      [.leaf { name := "Count" } fun _ w =>
        (.status .finished, { w with board := w.board.insert ⟨3⟩ (((w.board.get? ⟨3⟩).getD 0 : Int64) + 1) }),
      { TreeNode.idle 0 with
        condition := .custom { name := "Two" } fun _ board w =>
          (decide (2 ≤ ((board.get? ⟨3⟩).getD 0 : Int64)), w) }] }

/-- The update of an agent that has counted for another character finishes, and that of a new agent is refused. -/
theorem Agent.setCharacter_counting :
    let a : Agent Unit := { entity := ⟨1⟩, character := (), behavior := .ofNode "" .counting }
    let a := a.run [.update none 100]
    ((a.setCharacter ⟨2⟩ ()).update none 100).status = .finished ∧
      ((a.renewed ⟨2⟩ ()).update none 100).status = .cannotExecute ∧
      ¬∀ ops, (a.setCharacter ⟨2⟩ ()).sights ops = (a.renewed ⟨2⟩ ()).sights ops := by
  intro a b
  have hold : ((b.setCharacter ⟨2⟩ ()).update none 100).status = .finished := by decide +kernel
  have hnew : ((b.renewed ⟨2⟩ ()).update none 100).status = .cannotExecute := by decide +kernel
  refine ⟨hold, hnew, fun h => ?_⟩
  have hsights := h [.update none 100]
  simp only [sights, sightsFrom, turn?, Option.map_some, List.cons.injEq, Sight.mk.injEq, Option.some.injEq,
    Prod.mk.injEq, hold, hnew] at hsights
  exact absurd hsights.1.1.1 (by decide)

end Behavior
