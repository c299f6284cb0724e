import Behavior.Proofs.Agent.Operation
import Behavior.Proofs.Tree.Tracing
/-!
# Traced agents

The log of an agent that was there from the first update on tells the whole story of every node
(`trace_after_update`).
-/

namespace Behavior

variable {χ : Type}

/-- The tasks of a hierarchy leave the slots of the log and the sink alone. -/
def TreeNode.LeavesTrace (root : TreeNode χ) : Prop :=
  ∀ n ∈ root.preorder, ∀ task, n.kind = .task task → task.LeavesTrace

theorem BehaviorTree.legible_ofNode (name : String) {root : TreeNode χ} (small : root.count ≤ UInt32.size)
    (quiet : root.LeavesTrace) : (BehaviorTree.ofNode name root).Legible where
  nested := nested_ofNode name root
  small {id n} hn := by
    have hroot := holds_ofNode name root
    have hid : id ∈ (BehaviorTree.ofNode name root).subtree NodeId.root := by
      cases hs : (BehaviorTree.ofNode name root).slot? id with
      | none => simp [BehaviorTree.subtree, hs] at hn
      | some s => exact mem_subtree_root hs
    have hlt := (hroot.mem_subtree.mp ((nested_ofNode name root).trans hid hn)).2
    simp only [NodeId.root] at hlt
    omega
  tasks hs hk := by
    obtain ⟨n, hn, _, rfl⟩ := exists_holds_of_slot hs
    exact quiet n hn _ hk

/-- Whether an operation leaves to the tree what is recorded and traced. -/
def Agent.Operation.LeavesTrace : Agent.Operation χ → Prop
  | .update .. | .setPaused _ | .setSeed _ | .setZone _ | .changeCharacter _ => True
  | _ => False

namespace Agent

variable [Character χ]

/-- What holds between two operations of an agent whose log was there from the beginning. -/
structure Traced (sink : Bool) (a : Agent χ) : Prop where
  legible : a.behavior.Legible
  root : ∃ s, a.behavior.slot? NodeId.root = some s
  listening : (a.frame 0).Listening sink
  faithful : ∀ n ∈ a.behavior.subtree NodeId.root, (a.frame 0).Faithful (a.scene none 0) n
  received : a.received = if sink then (a.frame 0).events else []
  entity : ∀ e ∈ (a.frame 0).events, e.entity = a.entity

variable {a : Agent χ} {sink : Bool} {home : Option Roster} {delta : UInt64}

theorem Traced.narrated (h : a.Traced sink) :
    a.behavior.Narrated (a.scene home delta) sink NodeId.root (a.frame delta) (a.execution home delta).2 := by
  obtain ⟨s, hs⟩ := h.root
  refine h.legible.narrated_execute hs ⟨h.listening.log, h.listening.sink⟩ fun n hn => ?_
  exact (h.faithful n hn).congr rfl rfl

theorem Traced.update (h : a.Traced sink) : (a.update home delta).agent.Traced sink ∧
    ∃ new, ((a.update home delta).agent.frame 0).events = (a.frame 0).events ++ new ∧
      ∀ e ∈ new, e.entity = a.entity ∧ e.tick = a.tick := by
  cases hp : a.paused with
  | true =>
      rw [update_of_paused hp]
      exact ⟨h, [], by simp, by simp⟩
  | false =>
      have narrated := @h.narrated _ _ _ _ home delta
      obtain ⟨new, hevents, hreceived, hall⟩ := narrated.emits.added
      have hlog : ((a.update home delta).agent.frame 0).events = (a.frame 0).events ++ new := by
        rw [update_of_awake hp]; exact hevents
      rw [update_of_awake hp] at hlog ⊢
      refine ⟨⟨h.legible, h.root, ⟨narrated.emits.listening.log, narrated.emits.listening.sink⟩, fun n hn => ?_,
        ?_, fun e he => ?_⟩, new, hlog, fun e he => ⟨(hall e he).2, (hall e he).1⟩⟩
      · exact (narrated.faithful n hn).congr rfl rfl
      · rw [hlog]
        have hreceived : (a.execution home delta).2.received = a.received ++ if sink then new else [] := hreceived
        rw [hreceived, h.received]
        cases sink <;> rfl
      · rw [hlog] at he
        exact (List.mem_append.mp he).elim (h.entity e) fun he => (hall e he).2

theorem Traced.perform (h : a.Traced sink) {op : Operation χ} (hop : op.LeavesTrace) : (a.perform op).Traced sink := by
  cases op with
  | update home delta => exact h.update.1
  | setPaused | setSeed | setZone | changeCharacter =>
      exact ⟨h.legible, h.root, ⟨h.listening.log, h.listening.sink⟩, fun n hn => (h.faithful n hn).congr rfl rfl,
        h.received, h.entity⟩
  | resetState | setBehavior | setCharacter | changeBoard => exact hop.elim

theorem Traced.run (h : a.Traced sink) {ops : List (Operation χ)} (hops : ∀ op ∈ ops, op.LeavesTrace) :
    (a.run ops).Traced sink := by
  induction ops generalizing a with
  | nil => exact h
  | cons op ops ih => exact ih (h.perform (hops op (by simp))) fun op' hop' => hops op' (by simp [hop'])

theorem keeps_of_leavesTrace {op : Operation χ} (hop : op.LeavesTrace) :
    (a.perform op).behavior = a.behavior ∧ (a.perform op).entity = a.entity := by
  cases op with
  | update home delta => exact ⟨behavior_update, entity_update⟩
  | setPaused | setSeed | setZone | changeCharacter => exact ⟨rfl, rfl⟩
  | resetState | setBehavior | setCharacter | changeBoard => exact hop.elim

theorem run_keeps {ops : List (Operation χ)} (hops : ∀ op ∈ ops, op.LeavesTrace) :
    (a.run ops).behavior = a.behavior ∧ (a.run ops).entity = a.entity := by
  induction ops generalizing a with
  | nil => exact ⟨rfl, rfl⟩
  | cons op ops ih =>
      obtain ⟨hbehavior, hentity⟩ := @keeps_of_leavesTrace _ _ a op (hops op (by simp))
      obtain ⟨hbehavior', hentity'⟩ := @ih (a.perform op) fun op' hop' => hops op' (by simp [hop'])
      exact ⟨hbehavior'.trans hbehavior, hentity'.trans hentity⟩

/-- An agent as it is made, with a board on which the log is empty. -/
theorem traced_of_new {entity : EntityId} {character : χ} {name : String} {root : TreeNode χ} {board : Blackboard}
    (small : root.count ≤ UInt32.size) (quiet : root.LeavesTrace) (hlog : board.get? Trace.logKey = some {}) :
    Traced (board.contains Trace.sinkKey)
      { entity, character, behavior := .ofNode name root, board } where
  legible := BehaviorTree.legible_ofNode name small quiet
  root := ⟨_, (BehaviorTree.holds_ofNode name root).slot⟩
  listening := ⟨by simp [Agent.frame, Blackboard.contains, hlog], rfl⟩
  faithful n _ := by
    have hevents : told (Frame.events (Agent.frame
        { entity, character, behavior := .ofNode name root, board } 0)) n = [.unknown] := by
      simp [Frame.events, Agent.frame, hlog, told, TraceLog.statusChanges, TraceLog.withTag]
    refine ⟨by rw [hevents]; exact .singleton _, ?_⟩
    rw [hevents, Frame.status_eq, Memory.status_eq_get?]
    simp [Agent.frame]
  received := by simp [Frame.events, Agent.frame, hlog]
  entity := by simp [Frame.events, Agent.frame, hlog]

end Agent

/-- At the end of every update, replaying the log of an agent gives the recorded status of every node; of
each node the log tells changes only; its events carry the agent, and the ones added carry the tick; and a
sink has received the same. The ids in a trace are 32-bit numbers, which have to suffice for the tree. -/
theorem trace_after_update [Character χ] {entity : EntityId} {character : χ} {name : String}
    {root : TreeNode χ} {board : Blackboard} {ops : List (Agent.Operation χ)} {home : Option Roster}
    {delta : UInt64} {a : Agent χ} {u : Agent.Turn χ} (small : root.count ≤ UInt32.size) (quiet : root.LeavesTrace)
    (hlog : board.get? Trace.logKey = some {}) (hops : ∀ op ∈ ops, op.LeavesTrace)
    (ha : a = Agent.run { entity, character, behavior := .ofNode name root, board } ops)
    (hu : u = a.update home delta) :
    ∃ before new, a.board.get? Trace.logKey = some ⟨before⟩ ∧
      u.agent.board.get? Trace.logKey = some ⟨before ++ new⟩ ∧
      (∀ n < root.count, replay (TraceLog.mk (before ++ new)).statusChanges n = u.agent.nodeStatus n) ∧
      (∀ n < root.count, (told (before ++ new) n).IsChain (· ≠ ·)) ∧
      (∀ e ∈ before ++ new, e.entity = entity) ∧ (∀ e ∈ new, e.tick = a.tick) ∧
      u.agent.received = if board.contains Trace.sinkKey then before ++ new else [] := by
  have start : Agent.Traced (board.contains Trace.sinkKey)
      ({ entity, character, behavior := .ofNode name root, board } : Agent χ) :=
    Agent.traced_of_new small quiet hlog
  have traced : a.Traced (board.contains Trace.sinkKey) := ha ▸ start.run hops
  obtain ⟨hbehavior, hentity⟩ := ha ▸ @Agent.run_keeps _ _ { entity, character, behavior := .ofNode name root, board } _ hops
  obtain ⟨traced', new, hevents, hnew⟩ := hu ▸ @traced.update _ _ _ _ home delta
  have hfaithful : ∀ n < root.count, (u.agent.frame 0).Faithful (u.agent.scene none 0) n := by
    intro n hn
    refine traced'.faithful n ?_
    rw [hu, Agent.behavior_update, hbehavior]
    exact (BehaviorTree.holds_ofNode name root).mem_subtree.mpr
      ⟨Nat.zero_le n, by rw [NodeId.root, Nat.zero_add]; exact hn⟩
  have hentity' : u.agent.entity = entity := by rw [hu, Agent.entity_update, hentity]
  refine ⟨(a.frame 0).events, new, traced.listening.get?_log, ?_⟩
  rw [← hevents]
  refine ⟨traced'.listening.get?_log, fun n hn => ?_, fun n hn => (hfaithful n hn).changes, fun e he => ?_,
    fun e he => (hnew e he).2, traced'.received⟩
  · exact Option.some.inj (getLast?_told.symm.trans (hfaithful n hn).last)
  · rw [traced'.entity e he, hentity']

theorem Task.leavesTrace_idle {millis : UInt64} : Task.LeavesTrace (χ := χ) (.idle millis) := by
  intro context w
  simp only [Task.idle]
  split
  · exact ⟨rfl, rfl⟩
  · split <;> exact ⟨rfl, rfl⟩

theorem TreeNode.leavesTrace_waiting : TreeNode.waiting.LeavesTrace := by
  intro n hn task hk
  simp only [waiting, preorder_eq, preorderAll, ofKind, idle, leaf, List.append_nil, List.mem_cons,
    List.not_mem_nil, or_false] at hn
  rcases hn with rfl | rfl
  · cases hk
  · cases hk
    exact Task.leavesTrace_idle

/-- The log and the sink hear twice of a leaf that waits. -/
theorem trace_after_update_waiting :
    let board := (({} : Blackboard).insert Trace.logKey {}).insert Trace.sinkKey {}
    let a : Agent Unit :=
      Agent.run { entity := ⟨7⟩, character := (), behavior := .ofNode "wait" .waiting, board } [.update none 10]
    let u := a.update none 10
    ∃ log, u.agent.board.get? Trace.logKey = some log ∧ replay log.statusChanges 1 = .running ∧
      u.agent.received = log.events := by
  intro board a u
  have small : TreeNode.waiting.count ≤ UInt32.size := by decide
  have hlog : board.get? Trace.logKey = some {} := by decide +kernel
  have hsink : board.contains Trace.sinkKey = true := by decide +kernel
  have hops : ∀ op ∈ ([.update none 10] : List (Agent.Operation Unit)), op.LeavesTrace := by
    simp [Agent.Operation.LeavesTrace]
  have running : u.agent.nodeStatus 1 = .running := by decide +kernel
  have ha : a = Agent.run { entity := ⟨7⟩, character := (), behavior := .ofNode "wait" .waiting, board }
    [.update none 10] := rfl
  have hu : u = a.update none 10 := rfl
  clear_value u a
  have hsmall : 1 < TreeNode.waiting.count := by decide
  clear_value board
  obtain ⟨before, new, _, hget, hreplay, _, _, _, hreceived⟩ :=
    trace_after_update small TreeNode.leavesTrace_waiting hlog hops ha hu
  rw [hsink] at hreceived
  exact ⟨_, hget, (hreplay 1 hsmall).trans running, hreceived⟩

end Behavior
