import Behavior.Proofs.Agent.Operation
import Behavior.Proofs.Tree.Accounts
import Behavior.Proofs.Tree.Running
/-!
# No stale running memory

Between two updates, the running nodes of an agent are those that ended as running in the last one
(`Session.Sound`), whatever else is done to the agent. So a leaf learns that it was left running exactly
when the last update left it so.
-/

namespace Behavior

variable {χ : Type}

/-- Whether an operation keeps to steady behaviours. -/
def Agent.Operation.Steady : Agent.Operation χ → Prop
  | .setBehavior _ root => root.Steady
  | _ => True

namespace BehaviorTree

theorem Nested.exists_parent {t : BehaviorTree χ} (nested : t.Nested) {id n : Nat} {s}
    (hs : t.slot? id = some s) (hn : n ∈ t.subtree id) :
    n = id ∨ ∃ p ∈ t.subtree id, ∃ s, t.slot? p = some s ∧ n ∈ s.children := by
  refine nested.induction (fun id => n ∈ t.subtree id →
    n = id ∨ ∃ p ∈ t.subtree id, ∃ s, t.slot? p = some s ∧ n ∈ s.children) ?_ hs hn
  intro id s hs ih hn
  rcases nested.cover hs hn with rfl | ⟨c, hc, hnc⟩
  · exact .inl rfl
  · rcases ih c hc hnc with rfl | ⟨p, hp, s', hs', hmem⟩
    · exact .inr ⟨id, nested.mem_self hs, s, hs, hc⟩
    · exact .inr ⟨p, (nested.below hs hc hp).2, s', hs', hmem⟩

end BehaviorTree

namespace Session

variable [Character χ]

/-- What holds between two operations. -/
structure Sound (s : Session χ) : Prop where
  steady : s.agent.behavior.Steady
  inside {n : Nat} : s.agent.nodeStatus n = .running → n ∈ s.agent.behavior.subtree NodeId.root
  settled : s.agent.behavior.Settled (s.agent.scene none 0) (s.agent.frame 0) NodeId.root
  told {n : Nat} : s.agent.nodeStatus n = .running ↔ ∃ steps, s.latest = some steps ∧ .ended n .running ∈ steps
  accounted {steps} : s.latest = some steps → s.agent.behavior.Accounted steps

variable {s : Session χ} {home : Option Roster} {delta : UInt64}

/-- Where nothing is remembered, nothing is running. -/
theorem sound_of_empty (steady : s.agent.behavior.Steady) (hmemory : s.agent.memory = {})
    (hlatest : s.latest = none) : s.Sound := by
  have hstatus : ∀ n, s.agent.nodeStatus n ≠ .running := fun n => by
    simp [Agent.nodeStatus, hmemory, Memory.status_eq_get?]
  refine ⟨steady, fun hn => absurd hn (hstatus _), ?_, fun {n} => ?_, fun h => ?_⟩
  · intro n _ slot _ c _ hrun
    exact absurd hrun (hstatus c)
  · simp [hstatus, hlatest]
  · simp [hlatest] at h

/-- Executing the tree makes it live, since nothing has ended before. -/
theorem Sound.live (h : s.Sound) :
    s.agent.behavior.Live (s.agent.scene home delta) (s.agent.execution home delta).2 NodeId.root := by
  obtain ⟨slot, hslot, halways⟩ := h.steady.root
  have hwait : s.agent.behavior.Waiting (s.agent.scene home delta) (s.agent.frame delta) NodeId.root :=
    ⟨h.settled, fun n _ hin => by simp [Agent.frame] at hin⟩
  refine (h.steady.execute_settles hslot).unguarded _ hwait fun slot' hslot' => ?_
  rwa [← Option.some.inj (hslot.symm.trans hslot')]

theorem Sound.within (h : s.Sound) :
    s.agent.behavior.Within (s.agent.scene home delta) NodeId.root (s.agent.frame delta)
      (s.agent.execution home delta).2 :=
  h.steady.nested.within_execute _ _

theorem Sound.mem_subtree_of_ended (h : s.Sound) {n : Nat} {r : Status}
    (hn : .ended n r ∈ (s.agent.execution home delta).2.steps) : n ∈ s.agent.behavior.subtree NodeId.root := by
  obtain ⟨new, hsteps, hall⟩ := (@h.within _ _ _ home delta).steps
  rw [hsteps] at hn
  exact (hall _ hn).1

/-- After an update, the running nodes are those that ended as running during it. -/
theorem Sound.told_update (h : s.Sound) (awake : s.agent.paused = false) {n : Nat} :
    (s.agent.update home delta).agent.nodeStatus n = .running ↔
      .ended n .running ∈ (s.agent.update home delta).steps := by
  simp only [Agent.update_of_awake awake]
  by_cases hn : n ∈ s.agent.behavior.subtree NodeId.root
  · exact (@h.live _ _ _ home delta).2 n hn
  · refine iff_of_false (fun hrun => hn (h.inside ?_)) fun hended => hn (h.mem_subtree_of_ended hended)
    have agree := (@h.within _ _ _ home delta).agree n s.agent.entity fun hin => hn hin.1
    exact agree.status.symm.trans hrun

theorem Sound.update (h : s.Sound) (awake : s.agent.paused = false) :
    Sound { agent := (s.agent.update home delta).agent, latest := some (s.agent.update home delta).steps } where
  steady := by rw [Agent.update_of_awake awake]; exact h.steady
  inside hrun := by
    have hended := (h.told_update awake).mp hrun
    rw [Agent.update_of_awake awake] at hended ⊢
    exact h.mem_subtree_of_ended hended
  settled := by rw [Agent.update_of_awake awake]; exact h.live.1
  told {n} := by simpa using h.told_update awake
  accounted hsteps := by
    rw [← Option.some.inj hsteps, Agent.update_of_awake awake]
    exact h.steady.nested.accounted_execute _ BehaviorTree.accounted_nil

theorem Sound.perform (h : s.Sound) {op : Agent.Operation χ} (hop : op.Steady) : (s.perform op).Sound := by
  cases op with
  | update home delta =>
      cases hp : s.agent.paused with
      | true => simpa [Session.perform, Agent.perform, remembered, Agent.update_of_paused hp, hp] using h
      | false => simpa [Session.perform, Agent.perform, remembered, hp] using h.update hp
  | resetState => exact sound_of_empty h.steady rfl rfl
  | setBehavior name root => exact sound_of_empty (BehaviorTree.steady_ofNode name hop) rfl rfl
  | setCharacter entity character => exact sound_of_empty h.steady rfl rfl
  | setPaused | setSeed | setZone | changeBoard | changeCharacter =>
      exact ⟨h.steady, h.inside, h.settled, h.told, h.accounted⟩

theorem Sound.run (h : s.Sound) {ops : List (Agent.Operation χ)} (hops : ∀ op ∈ ops, op.Steady) :
    (s.run ops).Sound := by
  induction ops generalizing s with
  | nil => exact h
  | cons op ops ih => exact ih (h.perform (hops op (by simp))) fun op' hop' => hops op' (by simp [hop'])

/-- A session with an agent as it is made. -/
def start (entity : EntityId) (character : χ) (name : String) (root : TreeNode χ) : Session χ where
  agent := { entity, character, behavior := .ofNode name root }

theorem sound_start {entity : EntityId} {character : χ} {name : String} {root : TreeNode χ} (h : root.Steady) :
    (start entity character name root).Sound :=
  sound_of_empty (BehaviorTree.steady_ofNode name h) rfl rfl

end Session

namespace Session

/-- A leaf that an update calls is told that it goes on exactly if it was running before the update. -/
theorem Sound.firstRun_eq [Character χ] {s : Session χ} (h : s.Sound) (awake : s.agent.paused = false) {home delta}
    {context character timer board}
    (hcall : .called context character timer board ∈ (s.agent.update home delta).steps) :
    (∃ slot task, s.agent.behavior.slot? context.node = some slot ∧ slot.kind = .task task) ∧
      context.firstRun = !(s.agent.nodeStatus context.node).isRunning := by
  have accounted := (@h.update _ _ _ home delta awake).accounted rfl
  refine ⟨?_, ?_⟩
  · have hleaf := accounted.leaf hcall
    rwa [Agent.update_of_awake awake] at hleaf
  · rw [Agent.update_of_awake awake] at hcall
    obtain ⟨new, hsteps, hall⟩ := (@h.within _ _ _ home delta).steps
    rw [hsteps] at hcall
    exact (hall _ hcall).2

end Session

/-- No stale running memory: after an update the running nodes are those that it left running, each with a
running parent, and a leaf was told that it goes on exactly if the last update called it and left it
running. -/
theorem running_after_update [Character χ] {entity : EntityId} {character : χ} {name : String}
    {root : TreeNode χ} {ops : List (Agent.Operation χ)} {home : Option Roster} {delta : UInt64}
    {s : Session χ} {u : Agent.Turn χ} (steady : root.Steady) (hops : ∀ op ∈ ops, op.Steady)
    (hs : s = (Session.start entity character name root).run ops) (awake : s.agent.paused = false)
    (hu : u = s.agent.update home delta) :
    (∀ n, u.agent.nodeStatus n = .running →
      (.began n true ∈ u.steps ∧ .ended n .running ∈ u.steps) ∧
        (n = NodeId.root ∨ ∃ p, n ∈ u.agent.behavior.children p ∧ u.agent.nodeStatus p = .running)) ∧
      ∀ context character timer board, .called context character timer board ∈ u.steps →
        (context.firstRun = false ↔ ∃ steps, s.latest = some steps ∧ .ended context.node .running ∈ steps ∧
          ∃ context' character timer board, .called context' character timer board ∈ steps ∧
            context'.node = context.node) := by
  have sound : s.Sound := hs ▸ (Session.sound_start steady).run hops
  have after := hu ▸ @sound.update _ _ _ home delta awake
  have hlatest : ∀ n, u.agent.nodeStatus n = .running ↔ .ended n .running ∈ u.steps := fun n => by
    rw [hu]; exact sound.told_update awake
  refine ⟨fun n hrun => ?_, fun context character timer board hcall => ?_⟩
  · have hended := (hlatest n).mp hrun
    refine ⟨⟨(after.accounted rfl).began hended, hended⟩, ?_⟩
    obtain ⟨slot, hslot, _⟩ := after.steady.root
    rcases after.steady.nested.exists_parent hslot (after.inside hrun) with rfl | ⟨p, hp, slot', hslot', hmem⟩
    · exact .inl rfl
    · have hparent := (after.settled p hp slot' hslot' n hmem hrun).1
      exact .inr ⟨p, by simpa [BehaviorTree.children, hslot'] using hmem, hparent⟩
  · rw [hu] at hcall
    obtain ⟨⟨slot, task, hslot, hk⟩, hfirst⟩ := sound.firstRun_eq awake hcall
    have htold := @sound.told context.node
    rw [hfirst, Bool.not_eq_false', Status.isRunning_iff, htold]
    constructor
    · rintro ⟨steps, hsteps, hended⟩
      exact ⟨steps, hsteps, hended, (sound.accounted hsteps).called hended hslot hk⟩
    · rintro ⟨steps, hsteps, hended, _⟩
      exact ⟨steps, hsteps, hended⟩

theorem TreeNode.steady_waiting : TreeNode.waiting.Steady :=
  ⟨rfl, by simp [waiting, preorder_eq, preorderAll, ofKind, idle, leaf, NodeKind.isDecorator]⟩

/-- The leaf waits through two updates. -/
theorem running_after_update_waiting :
    let s := (Session.start ⟨7⟩ () "wait" .waiting).run [.update none 10]
    let u := s.agent.update none 10
    s.agent.paused = false ∧ u.agent.nodeStatus 1 = .running ∧ .began 1 true ∈ u.steps ∧
      ∃ p, 1 ∈ u.agent.behavior.children p ∧ u.agent.nodeStatus p = .running := by
  intro s u
  have hops : ∀ op ∈ ([.update none 10] : List (Agent.Operation Unit)), op.Steady := by simp [Agent.Operation.Steady]
  have awake : s.agent.paused = false := by decide +kernel
  have running : u.agent.nodeStatus 1 = .running := by decide +kernel
  obtain ⟨⟨hbegan, _⟩, hparent⟩ :=
    (running_after_update TreeNode.steady_waiting hops rfl awake rfl).1 1 running
  exact ⟨awake, running, hbegan, hparent.resolve_left (by decide)⟩

end Behavior
