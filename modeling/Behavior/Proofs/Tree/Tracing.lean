import Behavior.Proofs.Trace.Telling
import Behavior.Proofs.Tree.Locality
/-!
# Traced executions

The log is faithful to every node but the one that is being run: of that one it tells the status from
before. An execution of a node that begins with a log faithful to its subtree ends with one
(`Legible.narrated_execute`).
-/

namespace Behavior

variable {χ : Type}

/-- A task leaves the slots of the log and the sink alone. -/
def Task.LeavesTrace (task : Task χ) : Prop :=
  ∀ context w, (task context w).2.board.slots[Trace.logKey.id]? = w.board.slots[Trace.logKey.id]? ∧
    (task context w).2.board.slots[Trace.sinkKey.id]? = w.board.slots[Trace.sinkKey.id]?

namespace BehaviorTree

open Behavior.Frame

/-- A laid out tree whose ids take 32 bits and whose tasks leave the trace alone. -/
structure Legible (t : BehaviorTree χ) : Prop where
  nested : t.Nested
  small {id n : Nat} : n ∈ t.subtree id → n < UInt32.size
  tasks {id : Nat} {s task} : t.slot? id = some s → s.kind = .task task → task.LeavesTrace

/-- What an execution of a node does to the log: it emits, it tells of the subtree only, and in the end the
log is faithful to the subtree. -/
structure Narrated (t : BehaviorTree χ) (scene : Scene) (sink : Bool) (id : NodeId) (f g : Frame χ) : Prop where
  emits : Emits scene sink f g
  elsewhere : ∀ n ∉ t.subtree id, told g.events n = told f.events n
  faithful : ∀ n ∈ t.subtree id, g.Faithful scene n

variable {t : BehaviorTree χ} {scene : Scene} {sink : Bool} {run : Runner χ} {id c n : Nat} {s : Slot χ}
  {f g : Frame χ}

/-! ## Forgetting -/

theorem narrated_foldl {ids : List NodeId} (hf : f.Listening sink) (small : ∀ k ∈ ids, k < UInt32.size) :
    Emits scene sink f (ids.foldl (·.forgetTraced scene ·) f) ∧
      (∀ n ∉ ids, told (ids.foldl (·.forgetTraced scene ·) f).events n = told f.events n) ∧
      ∀ n, f.Faithful scene n → (ids.foldl (·.forgetTraced scene ·) f).Faithful scene n := by
  induction ids generalizing f with
  | nil => exact ⟨.refl hf, fun _ _ => rfl, fun _ h => h⟩
  | cons k ks ih =>
      have hk := small k (by simp)
      have hemits := @Listening.emits_forgetTraced _ _ scene _ k hf
      obtain ⟨hemits', htold, hfaithful⟩ := ih hemits.listening fun k' hk' => small k' (by simp [hk'])
      refine ⟨hemits.trans hemits', fun n hn => ?_, fun n h => hfaithful n (h.forgetTraced hf hk)⟩
      simp only [List.mem_cons, not_or] at hn
      rw [List.foldl_cons, htold n hn.2, hf.told_forgetTraced hk]
      simp [hn.1]

theorem Legible.narrated_reset (legible : t.Legible) (hf : f.Listening sink) :
    Emits scene sink f (t.reset scene c f) ∧
      (∀ n ∉ t.subtree c, told (t.reset scene c f).events n = told f.events n) ∧
      ∀ n, f.Faithful scene n → (t.reset scene c f).Faithful scene n :=
  narrated_foldl hf fun _ hk => legible.small hk

theorem subtree_eq_cons (hs : t.slot? id = some s) (hself : id ∈ t.subtree id) :
    ∃ below, t.subtree id = id :: below ∧ id ∉ below := by
  simp only [subtree, hs] at hself ⊢
  cases h : s.stop - id with
  | zero => simp [h] at hself
  | succ k => exact ⟨_, List.range'_succ, by simp [List.mem_range'_1]⟩

/-- The node that is being run is forgotten without a trace. -/
theorem Legible.narrated_resetBelow (legible : t.Legible) (hs : t.slot? id = some s) (hf : f.Listening sink) :
    Emits scene sink f (t.resetBelow scene id f) ∧
      (∀ n, n ∉ t.subtree id ∨ n = id → told (t.resetBelow scene id f).events n = told f.events n) ∧
      ∀ n, n ≠ id → f.Faithful scene n → (t.resetBelow scene id f).Faithful scene n := by
  obtain ⟨below, hsubtree, hnot⟩ := subtree_eq_cons hs (legible.nested.mem_self hs)
  have hforget : (f.forget scene id).Listening sink := ⟨hf.log, hf.sink⟩
  have hsmall : ∀ k ∈ below, k < UInt32.size := fun k hk => legible.small (hsubtree ▸ List.mem_cons_of_mem id hk)
  obtain ⟨hemits, htold, hfaithful⟩ := @narrated_foldl _ scene sink _ below hforget hsmall
  simp only [resetBelow, hsubtree]
  refine ⟨⟨hemits.listening, hemits.added⟩, fun n hn => htold n ?_, fun n hn h => hfaithful n (h.congr rfl ?_)⟩
  · rcases hn with hn | rfl
    · exact fun hin => hn (List.mem_cons_of_mem id hin)
    · exact hnot
  · exact (Memory.agree_forget fun h => hn h.1).status

/-! ## Acts -/

/-- The frame in the midst of running a node: nothing is told of the node itself, and the log is faithful
to what is below it. -/
structure Underway (t : BehaviorTree χ) (scene : Scene) (sink : Bool) (id : NodeId) (s : Slot χ) (f g : Frame χ) :
    Prop where
  emits : Emits scene sink f g
  elsewhere : ∀ n, n ∉ t.subtree id ∨ n = id → told g.events n = told f.events n
  faithful : ∀ c ∈ s.children, ∀ n ∈ t.subtree c, g.Faithful scene n

theorem Acts.underway (legible : t.Legible) (hs : t.slot? id = some s)
    (within : ∀ c ∈ s.children, ∀ g, t.Within scene c g (run c g).2)
    (narrated : ∀ c ∈ s.children, ∀ g, g.Listening sink → (∀ n ∈ t.subtree c, g.Faithful scene n) →
      t.Narrated scene sink c g (run c g).2)
    (hf : f.Listening sink) (hfaithful : ∀ c ∈ s.children, ∀ n ∈ t.subtree c, f.Faithful scene n) {used}
    (h : t.Acts scene run id s.children f used g) : t.Underway scene sink id s f g := by
  have nested := legible.nested
  have hout : ∀ c ∈ s.children, ∀ n, n ∉ t.subtree id ∨ n = id → n ∉ t.subtree c := by
    intro c hc n hn hin
    rcases hn with hn | rfl
    · exact hn (nested.below hs hc hin).2
    · exact nested.self_not_mem_child hs hc hin
  have hne : ∀ c ∈ s.children, ∀ n ∈ t.subtree c, n ≠ id := fun c hc n hn h =>
    nested.self_not_mem_child hs hc (h ▸ hn)
  induction h with
  | start => exact ⟨.refl hf, fun _ _ => rfl, hfaithful⟩
  | @run used g c _ hc _ ih =>
      have hrun := narrated c hc g ih.emits.listening (ih.faithful c hc)
      refine ⟨ih.emits.trans hrun.emits, fun n hn => ?_, fun c' hc' n hn => ?_⟩
      · rw [hrun.elsewhere n (hout c hc n hn), ih.elsewhere n hn]
      · by_cases hin : n ∈ t.subtree c
        · exact hrun.faithful n hin
        · exact (ih.faithful c' hc' n hn).congr (hrun.elsewhere n hin)
            ((within c hc g).agree n _ fun h => hin h.1).status
  | @reset used g c _ hc ih =>
      obtain ⟨hemits, htold, hkeeps⟩ := legible.narrated_reset ih.emits.listening
      refine ⟨ih.emits.trans hemits, fun n hn => ?_, fun c' hc' n hn => hkeeps n (ih.faithful c' hc' n hn)⟩
      rw [htold n (hout c hc n hn), ih.elsewhere n hn]
  | @resetBelow used g _ ih =>
      obtain ⟨hemits, htold, hkeeps⟩ := legible.narrated_resetBelow hs ih.emits.listening
      refine ⟨ih.emits.trans hemits, fun n hn => ?_, fun c' hc' n hn =>
        hkeeps n (hne c' hc' n hn) (ih.faithful c' hc' n hn)⟩
      rw [htold n hn, ih.elsewhere n hn]
  | @select used g i _ ih =>
      exact ⟨⟨⟨ih.emits.listening.log, ih.emits.listening.sink⟩, ih.emits.added⟩, ih.elsewhere,
        fun c hc n hn => (ih.faithful c hc n hn).congr rfl
          (Memory.agree_setSelected fun h => hne c hc n hn h.1).status⟩
  | @complete used g _ ih =>
      exact ⟨⟨⟨ih.emits.listening.log, ih.emits.listening.sink⟩, ih.emits.added⟩, ih.elsewhere,
        fun c hc n hn => (ih.faithful c hc n hn).congr rfl
          (Memory.agree_complete fun h => hne c hc n hn h.1).status⟩

/-! ## Leaves -/

/-- A frame whose board has the same trace slots. -/
theorem listening_of_slots (hf : f.Listening sink)
    (hlog : g.board.slots[Trace.logKey.id]? = f.board.slots[Trace.logKey.id]?)
    (hsink : g.board.slots[Trace.sinkKey.id]? = f.board.slots[Trace.sinkKey.id]?) :
    g.Listening sink ∧ g.events = f.events := by
  refine ⟨⟨?_, ?_⟩, ?_⟩
  · have := hf.log
    rwa [Blackboard.contains, ← Blackboard.get?_congr hlog] at this
  · have := hf.sink
    rwa [Blackboard.contains, ← Blackboard.get?_congr hsink] at this
  · rw [events, events, Blackboard.get?_congr hlog]

/-- A leaf leaves the board as its task does, and then a failure may be traced. -/
theorem runTask_traces {task : Task χ} : ∃ (w : Workspace χ) (g : Frame χ),
    ((runTask scene id task f).2 = g ∨
        (runTask scene id task f).2 = g.trace (.taskFault scene.tick.number scene.entity id)) ∧
      (task (taskContext scene id f) w).2.board = g.board ∧ w.board = f.board ∧ g.received = f.received := by
  refine ⟨{ character := f.character, timer := (f.memory.getD id scene.entity).timer, board := f.board
            journal := f.journal }, ?_⟩
  simp only [runTask, taskContext, Frame.status, Memory.status, note]
  generalize task _ _ = r
  cases r.1.result with
  | ok status => exact ⟨_, .inl rfl, rfl, trivial, rfl⟩
  | error fault => exact ⟨_, .inr rfl, rfl, trivial, rfl⟩

theorem Legible.underway_runTask (legible : t.Legible) (hs : t.slot? id = some s) {task : Task χ}
    (hk : s.kind = .task task) (hf : f.Listening sink)
    (hfaithful : ∀ c ∈ s.children, ∀ n ∈ t.subtree c, f.Faithful scene n) :
    t.Underway scene sink id s f (runTask scene id task f).2 := by
  have htold : Emits scene sink f (runTask scene id task f).2 ∧
      ∀ n, told (runTask scene id task f).2.events n = told f.events n := by
    obtain ⟨w, g, hg, hboard, hw, hreceived⟩ := @runTask_traces _ scene id f task
    obtain ⟨hlog, hsink⟩ := legible.tasks hs hk (taskContext scene id f) w
    rw [hboard, hw] at hlog hsink
    obtain ⟨hlistening, hevents⟩ := listening_of_slots hf hlog hsink
    have hemits : Emits scene sink f g := ⟨hlistening, [], by simp [hevents], by simp [hreceived], by simp⟩
    rcases hg with hg | hg <;> rw [hg]
    · exact ⟨hemits, fun n => by rw [hevents]⟩
    · refine ⟨hemits.trans (hlistening.emits_trace ⟨rfl, rfl⟩), fun n => ?_⟩
      rw [hlistening.events_trace, told_taskFault, hevents]
  refine ⟨htold.1, fun n _ => htold.2 n, fun c hc n hn => (hfaithful c hc n hn).congr (htold.2 n) ?_⟩
  obtain ⟨timer, hm⟩ := @memory_runTask _ scene id f task
  rw [Frame.status_eq, Frame.status_eq, hm]
  refine Memory.Agree.status ?_
  exact Memory.agree_update fun h => legible.nested.self_not_mem_child hs hc (h.1 ▸ hn)

/-! ## Nodes -/

theorem Legible.underway_perform (legible : t.Legible) (hs : t.slot? id = some s)
    (within : ∀ c ∈ s.children, ∀ g, t.Within scene c g (run c g).2)
    (narrated : ∀ c ∈ s.children, ∀ g, g.Listening sink → (∀ n ∈ t.subtree c, g.Faithful scene n) →
      t.Narrated scene sink c g (run c g).2)
    (hf : f.Listening sink) (hfaithful : ∀ c ∈ s.children, ∀ n ∈ t.subtree c, f.Faithful scene n) :
    t.Underway scene sink id s f (t.perform scene run id s f).2 := by
  by_cases hk : ∃ task, s.kind = .task task
  · obtain ⟨task, hk⟩ := hk
    simpa only [perform, hk] using legible.underway_runTask hs hk hf hfaithful
  · obtain ⟨used, h⟩ := perform_acts (fun task hk' => hk ⟨task, hk'⟩) (legible.nested.nodup hs)
    exact h.underway legible hs within narrated hf hfaithful

variable [Character χ]

theorem Legible.narrated_visit (legible : t.Legible) (hs : t.slot? id = some s)
    (within : ∀ c ∈ s.children, ∀ g, t.Within scene c g (run c g).2)
    (narrated : ∀ c ∈ s.children, ∀ g, g.Listening sink → (∀ n ∈ t.subtree c, g.Faithful scene n) →
      t.Narrated scene sink c g (run c g).2)
    (hf : f.Listening sink) (hfaithful : ∀ n ∈ t.subtree id, f.Faithful scene n) :
    t.Narrated scene sink id f (t.visit scene run id s f).2 := by
  have nested := legible.nested
  have hbelow : ∀ c ∈ s.children, ∀ n ∈ t.subtree c, f.Faithful scene n := fun c hc n hn =>
    hfaithful n (nested.below hs hc hn).2
  have hunder : t.Underway scene sink id s f (t.attempt scene run id s f).2 := by
    have hjudge : (judge scene id s f).2.Listening sink := ⟨hf.log, hf.sink⟩
    have hbelow' : ∀ c ∈ s.children, ∀ n ∈ t.subtree c, (judge scene id s f).2.Faithful scene n :=
      fun c hc n hn => (hbelow c hc n hn).congr rfl agree_judge.status
    simp only [attempt]
    split
    · have h := legible.underway_perform hs within narrated hjudge hbelow'
      exact ⟨⟨h.emits.listening, h.emits.added⟩, h.elsewhere, h.faithful⟩
    · exact ⟨⟨hjudge, [], by simp [events, judge, withWatch, note], by simp [judge, withWatch, note], by simp⟩,
        fun _ _ => rfl, hbelow'⟩
  simp only [visit]
  generalize t.attempt scene run id s f = r at hunder
  have hself := hfaithful id (nested.mem_self hs)
  have hemits := @Listening.emits_record _ _ scene _ id (f.status scene id) r.1 hunder.emits.listening
  have htold : ∀ n, told ((r.2.record scene id (f.status scene id) r.1).note (.ended id r.1)).events n =
      told r.2.events n ++ if n = id ∧ f.status scene id ≠ r.1 then [r.1] else [] := fun n =>
    hunder.emits.listening.told_record (legible.small (nested.mem_self hs))
  have hstatus : ∀ n, ((r.2.record scene id (f.status scene id) r.1).note (.ended id r.1)).status scene n =
      if n = id then r.1 else r.2.status scene n := fun n => status_record
  refine ⟨⟨⟨hemits.listening.log, hemits.listening.sink⟩, (hunder.emits.trans hemits).added⟩,
    fun n hn => ?_, fun n hn => ?_⟩
  · have hne : n ≠ id := fun h => hn (by rw [h]; exact nested.mem_self hs)
    rw [htold, hunder.elsewhere n (.inl hn)]
    simp [hne]
  · rcases nested.cover hs hn with rfl | ⟨c, hc, hnc⟩
    · refine hself.change (s := r.1) ?_ (by simp [hstatus])
      rw [htold, hunder.elsewhere n (.inr rfl)]
      by_cases h : f.status scene n = r.1 <;> simp [h]
    · have hne : n ≠ id := fun h => nested.self_not_mem_child hs hc (h ▸ hnc)
      refine (hunder.faithful c hc n hnc).congr ?_ (by simp [hstatus, hne])
      simp [htold, hne]

theorem Legible.narrated_execute (legible : t.Legible) (hs : t.slot? id = some s) (hf : f.Listening sink)
    (hfaithful : ∀ n ∈ t.subtree id, f.Faithful scene n) :
    t.Narrated scene sink id f (t.execute scene id f).2 := by
  refine legible.nested.induction (fun id => ∀ f, f.Listening sink → (∀ n ∈ t.subtree id, f.Faithful scene n) →
    t.Narrated scene sink id f (t.execute scene id f).2) ?_ hs f hf hfaithful
  intro id s hs ih f hf hfaithful
  rw [legible.nested.execute_of_slot hs]
  exact legible.narrated_visit hs (fun c _ => legible.nested.within_execute c) ih hf hfaithful

end BehaviorTree

end Behavior
