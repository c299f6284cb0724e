import Behavior.Proofs.Agent.Encounters
/-!
# Selectors over many updates

In every agent that can come about, selectors and parallel nodes clean up after each of their runs
(`neat_after_run`). A selector that remembers goes back to the child that it left running, and a selector by weight
executes no child that its weight rules out (`goes_back_to_child`).
-/

namespace Behavior.Agent

open BehaviorTree Step

variable {χ : Type} [Character χ] {a : Agent χ} {op : Operation χ} {id c : Nat} {s : Slot χ}

/-- Whenever a selector or a parallel node has run in an update, its children are forgotten but for those that it left
running, which are as they were left; a selector that remembers has selected a child if it is running, and that child
is the one that is; and a selector by priority is neither refused nor failed. -/
theorem neat_after_run (reachable : a.Reachable) (hs : a.behavior.slot? id = some s) (hk : s.kind.Cleans)
    (home : Option Roster) (delta : UInt64) :
    (∀ allowed, .began id allowed ∈ (a.update home delta).steps ↔ a.paused = false ∧
      ∃ f, a.behavior.Executes (a.scene home delta) NodeId.root (a.frame delta) id f ∧
        (judge (a.scene home delta) id s f).1 = allowed) ∧
      ∀ f, a.behavior.Executes (a.scene home delta) NodeId.root (a.frame delta) id f →
        (judge (a.scene home delta) id s f).1 = true → a.behavior.Neat (a.scene home delta) id s f := by
  obtain ⟨name, root, hb⟩ := reachable.behavior
  have nested : a.behavior.Nested := hb ▸ nested_ofNode name root
  refine ⟨fun allowed => ?_, fun f executes hallowed => ?_⟩
  · cases hp : a.paused with
    | true => simp [update_of_paused hp]
    | false =>
        have hroot : a.behavior.slot? NodeId.root = some (root.slot NodeId.root) := hb ▸ (holds_ofNode name root).slot
        have hsteps : (a.update home delta).steps =
            added (a.behavior.execute (a.scene home delta)) (NodeId.root, a.frame delta) := by
          rw [update_of_awake hp]
          exact (nested.steps_added _ _ _).1
        rw [hsteps, nested.began_iff_executes _ hroot]
        constructor
        · rintro ⟨s', f, hs', executes, hjudge⟩
          obtain rfl := Option.some.inj (hs.symm.trans hs')
          exact ⟨rfl, f, executes, hjudge⟩
        · rintro ⟨-, f, executes, hjudge⟩
          exact ⟨s, f, hs, executes, hjudge⟩
  · refine nested.neat_execute hs hk (fun hk => ?_) hallowed
    have hagree {n : NodeId} (hn : n ∈ a.behavior.subtree id) := (executes.agree nested n hn).2
    exact (reachable.committed hs hk).congr nested hs (hagree (nested.mem_self hs)).selected fun n hn _ => (hagree hn).1

/-- A selector whose first child waits. -/
theorem neat_after_run_idle :
    let a : Agent Unit :=
      { entity := ⟨7⟩, character := ()
        behavior := .ofNode "" { TreeNode.ofKind .prioritySelector with children := [.idle 5, .idle 0] } }
    a.Reachable ∧ .began NodeId.root true ∈ (a.update none 5).steps ∧
      (a.update none 5).agent.selectedChild NodeId.root = some 0 ∧
        ∀ d ∈ [1, 2], (a.update none 5).agent.nodeStatus d = .running ↔ d = 1 := by
  intro a
  have reachable : a.Reachable := .fresh _ _ _ _
  have began : .began NodeId.root true ∈ (a.update none 5).steps := began_of_any (by decide +kernel)
  have neat := (@neat_after_run _ _ a NodeId.root _ reachable rfl trivial none 5).2 (a.frame 5) .self (by decide +kernel)
  have selected : (a.update none 5).agent.selectedChild NodeId.root = some 0 := by decide +kernel
  obtain ⟨c, hc, hrunning⟩ := neat.selected_child trivial selected
  obtain rfl : 1 = c := Option.some.inj hc
  exact ⟨reachable, began, selected, hrunning⟩

/-! ## Going back to a child -/

/-- The selector has selected the child, which is running. -/
structure Pending (a : Agent χ) (id : NodeId) (i : Nat) (c : NodeId) : Prop where
  selected : a.selectedChild id = some i
  running : a.nodeStatus c = .running

/-- Operations in which the node is not reset and does not run. -/
inductive Lapses (id : NodeId) : Agent χ → List (Operation χ) → Prop where
  | nil {a : Agent χ} : Lapses id a []
  | cons {a : Agent χ} {op : Operation χ} {ops : List (Operation χ)} (keeps : a.Keeps id op)
      (idle : .began id true ∉ a.stepsOf op) (rest : Lapses id (a.perform op) ops) : Lapses id a (op :: ops)

variable {name : String} {root : TreeNode χ} {i : Nat}

omit [Character χ] in
theorem Pending.entry (pending : a.Pending id i c) : (a.memory.get? id a.entity).isSome := by
  cases h : a.memory.get? id a.entity with
  | some => rfl
  | none => exact absurd (pending.selected.symm.trans (Memory.selected_of_none h)) nofun

/-- An operation after which the records are the same as in this memory leaves the same child selected and running. -/
theorem pending_of_same {m : Memory} (nested : a.behavior.Nested) (hs : a.behavior.slot? id = some s)
    (hc : c ∈ s.children) (hselected : m.selected id a.entity = some i) (hstatus : m.status c a.entity = .running)
    (hbehavior : (a.perform op).entity = a.entity)
    (same : ∀ n ∈ a.behavior.subtree id, (a.perform op).memory.get? n a.entity = m.get? n a.entity) :
    (a.perform op).Pending id i c := by
  have hchild := (nested.below hs hc (nested.self_mem_child hs hc)).2
  refine ⟨?_, ?_⟩
  · rw [selectedChild, hbehavior, Memory.selected_congr (same id (nested.mem_self hs)), hselected]
  · rw [nodeStatus, hbehavior, Memory.status_congr (same c hchild), hstatus]

theorem Pending.perform (pending : a.Pending id i c) (hb : a.behavior = .ofNode name root)
    (hs : a.behavior.slot? id = some s) (hc : c ∈ s.children) (keeps : a.Keeps id op)
    (idle : .began id true ∉ a.stepsOf op) : (a.perform op).Pending id i c := by
  have nested : a.behavior.Nested := hb ▸ nested_ofNode name root
  cases op with
  | update home delta =>
      cases @encounter_update _ _ a home delta _ _ _ _ hb hs with
      | missed misses =>
          have same := keeps.same (nested.mem_self hs) (.inr pending.entry) misses
          exact pending_of_same nested hs hc pending.selected pending.running entity_update same
      | @met f spares recounts misses =>
          have same := keeps.same (nested.mem_self hs) (.inr pending.entry) misses
          have refused : (judge (a.scene home delta) id s f).1 = false := by
            rw [← Bool.not_eq_true]
            exact fun h => idle ((recounts.visited.began true).mpr h.symm)
          obtain ⟨hselected, hbelow⟩ := nested.selected_of_refused hs refused
          have hself := spares.2.2 id (nested.mem_self hs)
          have hchild := spares.2.2 c (nested.below hs hc (nested.self_mem_child hs hc)).2
          have hne : c ≠ id := fun heq => nested.not_mem_children hs (heq ▸ hc)
          have hselected := hselected.trans ((Memory.selected_congr hself).trans pending.selected)
          have hstatus := (Memory.status_congr ((hbelow c hne).trans hchild)).trans pending.running
          exact pending_of_same nested hs hc hselected hstatus entity_update same
  | resetState | setBehavior | setCharacter =>
      have hkept := keeps.entry (.inr pending.entry)
      exact absurd Memory.get?_empty (Option.ne_none_iff_isSome.mpr hkept)
  | setPaused | setSeed | setZone | changeBoard | changeCharacter => exact ⟨pending.selected, pending.running⟩

theorem Pending.run {ops : List (Operation χ)} (pending : a.Pending id i c) (hb : a.behavior = .ofNode name root)
    (hs : a.behavior.slot? id = some s) (hc : c ∈ s.children) (lapses : Lapses id a ops) :
    (a.run ops).Pending id i c ∧ (a.run ops).behavior = a.behavior := by
  induction lapses with
  | nil => exact ⟨pending, rfl⟩
  | @cons a op ops keeps idle _ ih =>
      have next := ih (pending.perform hb hs hc keeps idle) (keeps.behavior ▸ hb) (keeps.behavior ▸ hs)
      exact ⟨next.1, next.2.trans keeps.behavior⟩

/-- A run of a selector in which it answers that it is running, as a child does, leaves the child pending. -/
theorem pending_of_running (reachable : a.Reachable) (hs : a.behavior.slot? id = some s) (hk : s.kind.Commits)
    (hi : s.children[i]? = some c) (keeps : a.Keeps id op) (hnode : .ended id .running ∈ a.stepsOf op)
    (hchild : .ended c .running ∈ a.stepsOf op) : (a.perform op).Pending id i c := by
  obtain ⟨name, root, hb⟩ := reachable.behavior
  have nested : a.behavior.Nested := hb ▸ nested_ofNode name root
  have hc := List.mem_of_getElem? hi
  cases op with
  | update home delta =>
      cases @encounter_update _ _ a home delta _ _ _ _ hb hs with
      | missed misses => exact absurd (nested.mem_self hs) (silent_of_misses misses _ hnode)
      | @met f spares recounts misses =>
          have hresult := (recounts.visited.ended .running).mp hnode
          have hallowed : (judge (a.scene home delta) id s f).1 = true := by
            cases h : (judge (a.scene home delta) id s f).1 with
            | true => rfl
            | false =>
                have hrefused := hresult.trans (nested.execute_of_refused hs h).1
                cases hrefused
          have committed := (reachable.committed hs hk).misses nested hs spares.misses
          have cleaned := nested.cleaned_execute hs hk.cleans (fun _ => committed) hallowed
          have same := keeps.same (nested.mem_self hs)
            (.inl (mem_executed_of_began ((recounts.visited.began true).mpr hallowed.symm))) misses
          cases cleaned.elects hk with
          | nobody result => exact absurd hresult.symm result
          | @child j d h _ selected _ place call running only =>
              -- the child that is running is the only one
              have hresults := mem_results.mpr ⟨hc, hchild⟩
              rw [stepsOf, recounts.results] at hresults
              obtain ⟨x, hx, heq⟩ := List.mem_map.mp hresults
              simp only [Prod.mk.injEq] at heq
              obtain rfl : d = c := (only x hx heq.2).symm.trans heq.1
              obtain rfl : i = j :=
                (List.getElem?_inj (List.getElem?_eq_some_iff.mp hi).1 (nested.nodup hs)).mp (hi.trans place.symm)
              have hstatus := ((cleaned.tidy d hc).running_iff (nested.self_mem_child hs hc) ?_).mpr ⟨h, call, running⟩
              · exact pending_of_same nested hs hc selected hstatus entity_update same
              · obtain ⟨sd, hsd⟩ := nested.exists_slot hs hc
                exact nested.status_execute hsd
  | resetState | setBehavior | setCharacter | setPaused | setSeed | setZone | changeBoard | changeCharacter =>
      cases hnode

/-- In its next run, a selector goes back to the child first. -/
theorem Pending.resumes (pending : a.Pending id i c) (hb : a.behavior = .ofNode name root)
    (hs : a.behavior.slot? id = some s) (hk : s.kind.Commits) (hi : s.children[i]? = some c)
    (began : .began id true ∈ a.stepsOf op) :
    (tried s.children (a.stepsOf op)).head? = some c ∧
      (s.kind = .prioritySelector → ∀ d ∈ s.children.take i, d ∉ executed (a.stepsOf op)) ∧
        ∀ weights, s.kind = .probabilitySelector weights → tried s.children (a.stepsOf op) = [c] := by
  have nested : a.behavior.Nested := hb ▸ nested_ofNode name root
  have hc := List.mem_of_getElem? hi
  obtain ⟨home, delta, f, rfl, spares, recounts, -, hallowed⟩ := exists_met_of_began hb hs began
  have hself := spares.2.2 id (nested.mem_self hs)
  have hchild := spares.2.2 c (nested.below hs hc (nested.self_mem_child hs hc)).2
  have calls := calls_of_selected (t := a.behavior) (nested.nodup hs) hk hallowed
    ((Memory.selected_congr hself).trans pending.selected) hi ((Memory.status_congr hchild).trans pending.running)
  rw [← recounts.tried] at calls
  refine ⟨calls.1, fun hkind d hd hin => calls.2.1 hkind d hd ?_, calls.2.2⟩
  simpa [Step.tried] using ⟨hin, List.mem_of_mem_take hd⟩

/-! ## Choosing by weight -/

section Weights

variable {weights : List Float32} (hk : s.kind = .probabilitySelector weights)

include hk

theorem eligible_of_executed (reachable : a.Reachable) (hs : a.behavior.slot? id = some s) (hc : c ∈ s.children)
    (hexecuted : c ∈ executed (a.stepsOf op)) :
    ∃ i : Nat, s.children[i]? = some c ∧ eligible (weights[i]?.getD 1) := by
  obtain ⟨name, root, hb⟩ := reachable.behavior
  have nested : a.behavior.Nested := hb ▸ nested_ofNode name root
  cases op with
  | update home delta =>
      cases @encounter_update _ _ a home delta _ _ _ _ hb hs with
      | missed misses =>
          have hin := (nested.below hs hc (nested.self_mem_child hs hc)).2
          exact absurd hexecuted (not_mem_executed_of_misses misses hin)
      | @met f spares recounts misses =>
          have htried : c ∈ tried s.children (a.update home delta).steps := by
            simpa [Step.tried] using ⟨hexecuted, hc⟩
          rw [recounts.tried] at htried
          obtain ⟨x, hx, rfl⟩ := List.mem_map.mp htried
          have committed := (reachable.committed hs (by rw [hk]; trivial)).misses nested hs spares.misses
          exact eligible_of_call hk committed hx
  | resetState | setBehavior | setCharacter | setPaused | setSeed | setZone | changeBoard | changeCharacter =>
      cases hexecuted

theorem fails_without_child_iff (hb : a.behavior = .ofNode name root) (hs : a.behavior.slot? id = some s)
    (began : .began id true ∈ a.stepsOf op) :
    (.ended id .failed ∈ a.stepsOf op ∧ tried s.children (a.stepsOf op) = []) ↔
      (∀ i c, a.selectedChild id = some i → s.children[i]? = some c → a.nodeStatus c ≠ .running) ∧
        ∀ i < s.children.length, ¬ eligible (weights[i]?.getD 1) := by
  have nested : a.behavior.Nested := hb ▸ nested_ofNode name root
  obtain ⟨home, delta, f, rfl, spares, recounts, -, hallowed⟩ := exists_met_of_began hb hs began
  have hselected : f.selected _ id = a.selectedChild id :=
    Memory.selected_congr (spares.2.2 id (nested.mem_self hs))
  have hstatus {c : NodeId} (hc : c ∈ s.children) : f.status _ c = a.nodeStatus c :=
    Memory.status_congr (spares.2.2 c (nested.below hs hc (nested.self_mem_child hs hc)).2)
  have hiff := nested.no_calls_iff hk hs hallowed
  rw [hselected] at hiff
  rw [stepsOf, recounts.visited.ended, recounts.tried, List.map_eq_nil_iff, eq_comm, hiff]
  constructor
  · rintro ⟨hrunning, hnone⟩
    refine ⟨fun i c hsel hi => ?_, hnone⟩
    rw [← hstatus (List.mem_of_getElem? hi)]
    exact hrunning i c hsel hi
  · rintro ⟨hrunning, hnone⟩
    refine ⟨fun i c hsel hi => ?_, hnone⟩
    rw [hstatus (List.mem_of_getElem? hi)]
    exact hrunning i c hsel hi

end Weights

/-- A selector that remembers and was left running through a child goes back to that child in its next run, unless it
was reset: it executes no child before that one if it goes by priority, and no other if it goes by weight. By weight, it
executes no child whose weight is not finite or not above zero; and it fails without executing one exactly if it has no
running child to go back to and no child with another weight. -/
theorem goes_back_to_child (reachable : a.Reachable) (hs : a.behavior.slot? id = some s) (hk : s.kind.Commits) :
    (∀ op ops op' i c, s.children[i]? = some c → a.Keeps id op → .ended id .running ∈ a.stepsOf op →
      .ended c .running ∈ a.stepsOf op → Lapses id (a.perform op) ops →
      .began id true ∈ ((a.perform op).run ops).stepsOf op' →
      (tried s.children (((a.perform op).run ops).stepsOf op')).head? = some c ∧
        (s.kind = .prioritySelector →
          ∀ d ∈ s.children.take i, d ∉ executed (((a.perform op).run ops).stepsOf op')) ∧
        ∀ weights, s.kind = .probabilitySelector weights →
          tried s.children (((a.perform op).run ops).stepsOf op') = [c]) ∧
      ∀ weights, s.kind = .probabilitySelector weights → ∀ op,
        (∀ c ∈ s.children, c ∈ executed (a.stepsOf op) →
          ∃ i : Nat, s.children[i]? = some c ∧ eligible (weights[i]?.getD 1)) ∧
        (.began id true ∈ a.stepsOf op →
          ((.ended id .failed ∈ a.stepsOf op ∧ tried s.children (a.stepsOf op) = []) ↔
            (∀ i c, a.selectedChild id = some i → s.children[i]? = some c → a.nodeStatus c ≠ .running) ∧
              ∀ i < s.children.length, ¬ eligible (weights[i]?.getD 1))) := by
  obtain ⟨name, root, hb⟩ := reachable.behavior
  refine ⟨fun op ops op' i c hi keeps hnode hchild lapses began => ?_, fun weights hweights op => ⟨?_, ?_⟩⟩
  · have pending := pending_of_running reachable hs hk hi keeps hnode hchild
    have hb' := keeps.behavior.trans hb
    obtain ⟨pending, hbehavior⟩ := pending.run hb' (keeps.behavior ▸ hs) (List.mem_of_getElem? hi) lapses
    exact pending.resumes (hbehavior.trans hb') ((hbehavior.trans keeps.behavior) ▸ hs) hk hi began
  · exact fun c hc => eligible_of_executed hweights reachable hs hc
  · exact fails_without_child_iff hweights hb hs

/-- A selector whose second child waits, through a change of the seed; and one none of whose weights can win. -/
theorem goes_back_to_child_idle :
    let a : Agent Unit :=
      { entity := ⟨7⟩, character := ()
        behavior := .ofNode "" { TreeNode.ofKind .prioritySelector with
          children := [.leaf { name := "No" } fun _ w => (.status .failed, w), .idle 5] } }
    let b : Agent Unit :=
      { a with behavior := .ofNode "" { TreeNode.ofKind (.probabilitySelector [0]) with children := [.idle 5] } }
    let op : Operation Unit := .update none 2
    a.Keeps NodeId.root op ∧ .ended NodeId.root .running ∈ a.stepsOf op ∧ .ended 2 .running ∈ a.stepsOf op ∧
      Lapses NodeId.root (a.perform op) [.setSeed 3] ∧
      .began NodeId.root true ∈ ((a.perform op).run [.setSeed 3]).stepsOf op ∧
      (tried [1, 2] (((a.perform op).run [.setSeed 3]).stepsOf op)).head? = some 2 ∧
      1 ∉ executed (((a.perform op).run [.setSeed 3]).stepsOf op) ∧
      .began NodeId.root true ∈ b.stepsOf op ∧ .ended NodeId.root .failed ∈ b.stepsOf op ∧ ¬ eligible 0 := by
  intro a b op
  have keeps : a.Keeps NodeId.root op := ⟨rfl, rfl, fun _ => by decide +kernel⟩
  have ended {c : Agent Unit} {n : NodeId} {r : Status} (h : (n, r) ∈ results [n] (c.stepsOf op)) :
      .ended n r ∈ c.stepsOf op := (mem_results.mp h).2
  have hnode : .ended NodeId.root .running ∈ a.stepsOf op := ended (by decide +kernel)
  have hchild : .ended 2 .running ∈ a.stepsOf op := ended (by decide +kernel)
  have keeps' (a : Agent Unit) : a.Keeps NodeId.root (.setSeed 3) := ⟨rfl, rfl, fun h => h.resolve_left nofun⟩
  have lapses : Lapses NodeId.root (a.perform op) [.setSeed 3] := .cons (keeps' _) nofun .nil
  have began : .began NodeId.root true ∈ ((a.perform op).run [.setSeed 3]).stepsOf op :=
    began_of_any (by decide +kernel)
  have began' : .began NodeId.root true ∈ b.stepsOf op := began_of_any (by decide +kernel)
  have failed : .ended NodeId.root .failed ∈ b.stepsOf op := ended (by decide +kernel)
  obtain ⟨first, before, -⟩ := (@goes_back_to_child _ _ a NodeId.root _ (.fresh _ _ _ _) rfl trivial).1 op [.setSeed 3] op
    1 2 rfl keeps hnode hchild lapses began
  have never := ((@goes_back_to_child _ _ b NodeId.root _ (.fresh _ _ _ _) rfl trivial).2 [0] rfl op).2 began'
  have none_eligible := (never.mp ⟨failed, by decide +kernel⟩).2 0 (by decide)
  exact ⟨keeps, hnode, hchild, lapses, began, first, before rfl 1 (by decide), began', failed, none_eligible⟩

end Behavior.Agent
