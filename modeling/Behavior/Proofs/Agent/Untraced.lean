import Behavior.Proofs.Agent.Containment
/-!
# Tracing observes only

Whether anybody listens to the trace, and from when to when, shows in nothing else that an agent does. Main
statement: `Agent.untraced_turns_eq`.
-/

namespace Behavior

variable {χ : Type}

/-- The frame apart from the trace and the journal. -/
def Frame.untraced (f : Frame χ) : Frame χ :=
  { f with board := f.board.untraced, received := [], journal := [], steps := f.steps.map Step.untraced }

/-- Executions of a tree that takes no notice of the trace go the same way on frames that differ in it only. -/
theorem BehaviorTree.IgnoresTrace.execute_congr [Character χ] {t : BehaviorTree χ} (ht : t.IgnoresTrace)
    {scene : Scene} {id : NodeId} {f g : Frame χ} (hcharacter : f.character = g.character)
    (hmemory : f.memory = g.memory) (hboard : f.board.untraced = g.board.untraced) (hsteps : f.steps = [])
    (hsteps' : g.steps = []) :
    (t.execute scene id f).1 = (t.execute scene id g).1 ∧
      (t.execute scene id f).2.untraced = (t.execute scene id g).2.untraced := by
  -- both go as the second one goes if its faults are contained
  have shadowed (f : Frame χ) (hcharacter : f.character = g.character) (hmemory : f.memory = g.memory)
      (hboard : f.board.untraced = g.board.untraced) (hsteps : f.steps = []) :
      ∃ story, (t.execute scene id f).1 = (t.contained.execute scene id g).1 ∧
        Shadows t f.audience g.audience story (t.execute scene id f).2 (t.contained.execute scene id g).2 :=
    ht.exists_shadows hcharacter hmemory hboard hsteps hsteps'
  obtain ⟨story, hstatus, h⟩ := shadowed f hcharacter hmemory hboard hsteps
  obtain ⟨story', hstatus', h'⟩ := shadowed g rfl rfl rfl hsteps'
  have hsteps : (t.execute scene id f).2.steps.map Step.untraced =
      (t.execute scene id g).2.steps.map Step.untraced := by
    rw [h.steps, ← h.steps', h'.steps', ← h'.steps]
  refine ⟨hstatus.trans hstatus'.symm, ?_⟩
  simp only [Frame.untraced, hsteps, h.character, h'.character, h.memory, h'.memory, h.board, h'.board]

namespace Agent

/-- What an update gives, apart from the trace and the journal. -/
def Turn.untraced (u : Turn χ) : Turn χ :=
  { u with agent := u.agent.untraced, journal := [], steps := u.steps.map Step.untraced }

/-- The operation takes no notice of the trace, and no new behaviour does. -/
def Operation.IgnoresTrace [Character χ] : Operation χ → Prop
  | .setBehavior _ root => root.IgnoresTrace
  | .changeBoard change => ∀ b, (change b).untraced = (change b.untraced).untraced
  | _ => True

/-- The operation concerns the trace only. -/
def Operation.Tunes : Operation χ → Prop
  | .changeBoard change => ∀ b, (change b).untraced = b.untraced
  | _ => False

theorem tunes_listen {log sink : Bool} : (Operation.changeBoard (χ := χ) (Trace.listen log sink)).Tunes := by
  intro b
  have hlog {b : Blackboard} {log : TraceLog} : (b.insert Trace.logKey log).untraced = b.untraced :=
    Blackboard.untraced_insert (.inl rfl)
  have hsink {b : Blackboard} {sink : TraceSink} : (b.insert Trace.sinkKey sink).untraced = b.untraced :=
    Blackboard.untraced_insert (.inr rfl)
  have herased : ((b.erase Trace.logKey).erase Trace.sinkKey).untraced = b.untraced := by
    rw [Blackboard.untraced_erase (.inr rfl), Blackboard.untraced_erase (.inl rfl)]
  cases log <;> cases sink <;> simp [Trace.listen, hlog, hsink, herased]

/-- The same operations, apart from some that concern the trace only. -/
inductive Retuned [Character χ] : List (Operation χ) → List (Operation χ) → Prop
  | nil : Retuned [] []
  | both {op ops ops'} : op.IgnoresTrace → Retuned ops ops' → Retuned (op :: ops) (op :: ops')
  | left {op ops ops'} : op.Tunes → Retuned ops ops' → Retuned (op :: ops) ops'
  | right {op ops ops'} : op.Tunes → Retuned ops ops' → Retuned ops (op :: ops')

variable [Character χ] {a b : Agent χ} {op : Operation χ} {ops ops' : List (Operation χ)}

theorem untraced_execution_eq (ht : a.behavior.IgnoresTrace) (h : b.untraced = a.untraced) (home : Option Roster)
    (delta : UInt64) :
    (b.execution home delta).1 = (a.execution home delta).1 ∧
      (b.execution home delta).2.untraced = (a.execution home delta).2.untraced := by
  obtain ⟨board, received, rfl, hboard⟩ := exists_of_untraced_eq h
  exact ht.execute_congr rfl rfl hboard rfl rfl

theorem untraced_update_eq (ht : a.behavior.IgnoresTrace) (h : b.untraced = a.untraced) (home : Option Roster)
    (delta : UInt64) : (b.update home delta).untraced = (a.update home delta).untraced := by
  have hpaused : b.untraced.paused = a.untraced.paused := congrArg paused h
  have hstatus : b.untraced.status = a.untraced.status := congrArg Agent.status h
  cases hp : a.paused with
  | true =>
      have hu : a.update home delta = { status := a.status, agent := a } := update_of_paused hp
      have hv : b.update home delta = { status := b.status, agent := b } := update_of_paused (hpaused.trans hp)
      rw [hu, hv]
      simp only [Turn.untraced, h, show b.status = a.status from hstatus]
  | false =>
      have hu : a.update home delta = _ := update_of_awake hp
      have hv : b.update home delta = _ := update_of_awake (hpaused.trans hp)
      obtain ⟨hstatus, hframe⟩ := untraced_execution_eq ht h home delta
      obtain ⟨board, received, rfl, -⟩ := exists_of_untraced_eq h
      simp only [Frame.untraced, Frame.mk.injEq] at hframe
      rw [hu, hv]
      simp only [Turn.untraced, untraced, hstatus, hframe]

/-- An operation on two agents that differ in the trace only leaves two such agents, and an update gives them the
same. -/
theorem untraced_perform_eq (ht : a.behavior.IgnoresTrace) (h : b.untraced = a.untraced) (hop : op.IgnoresTrace) :
    (b.perform op).untraced = (a.perform op).untraced ∧
      (b.turn? op).map Turn.untraced = (a.turn? op).map Turn.untraced := by
  have hperform := congrArg (fun a => (a.perform op).untraced) h
  cases op with
  | update home delta =>
      have hupdate := untraced_update_eq ht h home delta
      exact ⟨congrArg Turn.agent hupdate, congrArg some hupdate⟩
  | changeBoard change =>
      have hchange (b : Agent χ) : (b.perform (.changeBoard change)).untraced =
          (b.untraced.perform (.changeBoard change)).untraced := by
        simp only [perform, untraced, hop b.board]
      exact ⟨by rw [hchange, h, ← hchange], rfl⟩
  | setPaused | resetState | setBehavior | setCharacter | setSeed | setZone | changeCharacter =>
      refine ⟨?_, rfl⟩
      simpa [perform, untraced, Agent.resetState, Agent.setBehavior, Agent.setCharacter] using hperform

theorem ignoresTrace_perform (ht : a.behavior.IgnoresTrace) (hop : op.IgnoresTrace) :
    (a.perform op).behavior.IgnoresTrace := by
  cases op with
  | setBehavior name root => exact BehaviorTree.ignoresTrace_ofNode name hop
  | update home delta => rwa [perform, behavior_update]
  | setPaused | resetState | setCharacter | setSeed | setZone | changeBoard | changeCharacter => exact ht

theorem perform_of_tunes (hop : op.Tunes) :
    a.turn? op = none ∧ (a.perform op).untraced = a.untraced ∧ (a.perform op).behavior = a.behavior := by
  cases op with
  | changeBoard change => exact ⟨rfl, by simp only [perform, untraced, hop a.board], rfl⟩
  | update | setPaused | resetState | setBehavior | setCharacter | setSeed | setZone | changeCharacter =>
      exact hop.elim

/-- Whoever listens to the trace of an agent, and from when to when, each update gives the same and leaves the same
behind. -/
theorem untraced_turns_eq (ht : a.behavior.IgnoresTrace) (h : b.untraced = a.untraced) (hops : Retuned ops ops') :
    (b.turns ops').map Turn.untraced = (a.turns ops).map Turn.untraced ∧
      (b.run ops').untraced = (a.run ops).untraced := by
  induction hops generalizing a b with
  | nil => exact ⟨rfl, h⟩
  | @both op ops ops' hop _ ih =>
      obtain ⟨hperform, hturn⟩ := untraced_perform_eq ht h hop
      obtain ⟨hturns, hrun⟩ := ih (ignoresTrace_perform ht hop) hperform
      have hturn := congrArg Option.toList hturn
      simp only [Option.toList_map] at hturn
      refine ⟨?_, hrun⟩
      rw [turns, turns, List.map_append, List.map_append, hturns, hturn]
  | @left op ops ops' hop _ ih =>
      obtain ⟨hnone, hperform, hbehavior⟩ := perform_of_tunes (a := a) hop
      obtain ⟨hturns, hrun⟩ := ih (hbehavior ▸ ht) (h.trans hperform.symm)
      exact ⟨by simpa [turns, hnone] using hturns, hrun⟩
  | @right op ops ops' hop _ ih =>
      obtain ⟨hnone, hperform, -⟩ := perform_of_tunes (a := b) hop
      obtain ⟨hturns, hrun⟩ := ih ht (hperform.trans h)
      exact ⟨by simpa [turns, hnone] using hturns, hrun⟩

/-- A log all along, and a sink only between the updates. -/
theorem untraced_turns_eq_stumbling :
    let a : Agent Unit :=
      { entity := ⟨7⟩, character := (), behavior := .ofNode "" .stumbling
        board := ({} : Blackboard).insert Trace.logKey {} }
    let b : Agent Unit := { a with board := {} }
    let ops : List (Operation Unit) := [.update none 10, .update none 10]
    let ops' : List (Operation Unit) :=
      [.changeBoard (Trace.listen false true), .update none 10, .changeBoard (Trace.listen false false),
        .update none 10]
    (b.turns ops').map Turn.untraced = (a.turns ops).map Turn.untraced ∧
      (b.run ops').untraced = (a.run ops).untraced ∧ (b.run ops').received ≠ (a.run ops).received ∧
      (b.run ops').board.contains Trace.logKey ≠ (a.run ops).board.contains Trace.logKey := by
  intro a b ops ops'
  have ht : a.behavior.IgnoresTrace := BehaviorTree.ignoresTrace_ofNode _ TreeNode.ignoresTrace_stumbling
  have h : b.untraced = a.untraced := congrArg (fun board => { a.untraced with board })
    (Blackboard.untraced_insert (.inl rfl)).symm
  have hops : Retuned ops ops' := .right tunes_listen (.both trivial (.right tunes_listen (.both trivial .nil)))
  obtain ⟨hturns, hrun⟩ := untraced_turns_eq ht h hops
  exact ⟨hturns, hrun, by decide +kernel, by decide +kernel⟩

end Agent

end Behavior
