import Behavior.Proofs.Agent.Encounters
/-!
# Limited nodes over many updates

A limited node counts the executions of its child that had a result other than running, and executes the child only
while the count is below the limit. Only clearing the whole state takes the count back (`limit_caps_completions`).
-/

namespace Behavior

open Step

variable {χ : Type} [Character χ]

/-- A count below some number is not the greatest number, so it goes up by one. -/
theorem Memory.toNat_completions_complete {m : Memory} {n : NodeId} {e : EntityId} {amount : UInt32}
    (h : m.completions n e < amount) : ((m.complete n e).completions n e).toNat = (m.completions n e).toNat + 1 := by
  have hlt := UInt32.lt_iff_toNat_lt.mp h
  have hbound := amount.toNat_lt
  have hmax : m.completions n e ≠ 0xFFFFFFFF := by
    intro heq
    have htoNat : (m.completions n e).toNat = 0xFFFFFFFF := by rw [heq]; rfl
    omega
  rw [completions_complete_self, if_neg hmax, UInt32.toNat_add]
  exact Nat.mod_eq_of_lt (Nat.lt_of_le_of_lt hlt hbound)

omit [Character χ] in
/-- If the results of some nodes are those of one of them, they are all that there is of that one. -/
theorem Step.results_singleton {nodes : List NodeId} {steps : List (Step χ)} {n : NodeId} (hn : n ∈ nodes)
    (h : ∀ x ∈ results nodes steps, x.1 = n) : results [n] steps = results nodes steps := by
  refine List.filter_congr fun x hx => ?_
  rw [decide_eq_decide, List.mem_singleton]
  constructor
  · rintro rfl
    exact hn
  · exact fun hin => h x (List.mem_filter.mpr ⟨hx, decide_eq_true hin⟩)

namespace BehaviorTree

variable {t : BehaviorTree χ} {scene : Scene} {id c : Nat} {s : Slot χ} {f : Frame χ} {amount : UInt32}

/-! ## One execution -/

section

variable (hk : s.kind = .limit amount) (hhead : s.children.head? = some c)

include hk hhead

theorem callsIn_limit :
    t.callsIn scene id s f =
      if (judge scene id s f).1 = true ∧ f.memory.completions id scene.entity < amount then
        [(c, (judge scene id s f).2)]
      else [] := by
  have hcount : (judge scene id s f).2.memory.completions id scene.entity = f.memory.completions id scene.entity :=
    agree_judge.2
  simp only [callsIn, callsOf, headCalls, hk, hhead, hcount]
  cases (judge scene id s f).1 with
  | false => simp
  | true =>
      by_cases hle : amount ≤ f.memory.completions id scene.entity
      · simp [hle, UInt32.not_lt]
      · simp [hle, UInt32.not_le.mp hle]

/-- Once the count has reached the limit, the node fails whenever it runs. -/
theorem Nested.failed_of_limit (nested : t.Nested) (hs : t.slot? id = some s) (hallowed : (judge scene id s f).1 = true)
    (hle : amount ≤ f.memory.completions id scene.entity) : (t.execute scene id f).1 = .failed := by
  have hcount : amount ≤ (judge scene id s f).2.memory.completions id scene.entity := hle
  simp [nested.execute_of_slot hs, visit, attempt, hallowed, perform, hk, limit, hhead, hcount]

variable (scene f) in
/-- The calls that have a result other than running are counted. -/
theorem Nested.completions_execute_limit (nested : t.Nested) (hs : t.slot? id = some s) :
    ((t.execute scene id f).2.memory.completions id scene.entity).toNat =
      (f.memory.completions id scene.entity).toNat +
        (t.callsIn scene id s f).countP fun x => (t.execute scene x.1 x.2).1.isTerminal := by
  have hc : c ∈ s.children := List.mem_of_mem_head? hhead
  have hchild (g : Frame χ) : (t.execute scene c g).2.memory.completions id scene.entity =
      g.memory.completions id scene.entity :=
    ((nested.within_execute c g).agree id scene.entity fun hin => nested.self_not_mem_child hs hc hin.1).2
  have hcount : (judge scene id s f).2.memory.completions id scene.entity = f.memory.completions id scene.entity :=
    agree_judge.2
  rw [callsIn_limit hk hhead]
  simp only [nested.execute_of_slot hs, visit, attempt, Frame.memory_note, Frame.memory_record,
    Memory.completions_update]
  cases (judge scene id s f).1 with
  | false => simp [hcount]
  | true =>
      by_cases hle : amount ≤ f.memory.completions id scene.entity
      · simp [perform, hk, limit, hhead, hcount, hle, UInt32.not_lt.mpr hle]
      · have hlt := UInt32.not_le.mp hle
        have hafter : (t.execute scene c (judge scene id s f).2).2.memory.completions id scene.entity =
            f.memory.completions id scene.entity := (hchild _).trans hcount
        simp only [perform, hk, limit, hhead, hcount, hle, hlt, if_false, if_true, and_self, List.countP_singleton]
        cases hr : (t.execute scene c (judge scene id s f).2).1.isRunning with
        | true => simp [Status.isTerminal, hr, hafter]
        | false =>
            have hcomplete := Memory.toNat_completions_complete (hafter.symm ▸ hlt)
            simp [Status.isTerminal, hr, hafter, hcomplete]

end

/-- What happens to a limited node that has completed so many times before and after. -/
structure Tallies (id c : NodeId) (amount before after : UInt32) (steps : List (Step χ)) : Prop where
  count : after.toNat = before.toNat + (results [c] steps).countP (·.2.isTerminal)
  le : after ≤ amount
  child : c ∈ executed steps ↔ .began id true ∈ steps ∧ before < amount
  failed : before = amount → .began id true ∈ steps → results [id] steps = [(id, .failed)]

variable {before : UInt32} {steps : List (Step χ)}

omit [Character χ] in
/-- A limited node that is not executed. -/
theorem tallies_of_silent (hle : before ≤ amount) (hnode : id ∉ executed steps) (hchild : c ∉ executed steps)
    (hresults : results [c] steps = []) : Tallies id c amount before before steps where
  count := by simp [hresults]
  le := hle
  child := iff_of_false hchild fun h => hnode (mem_executed_of_began h.1)
  failed _ began := absurd (mem_executed_of_began began) hnode

/-- A limited node that is executed. -/
theorem Recounts.tallies (recounts : t.Recounts scene id s f steps) (nested : t.Nested) (hs : t.slot? id = some s)
    (hk : s.kind = .limit amount) (hhead : s.children.head? = some c)
    (hle : f.memory.completions id scene.entity ≤ amount) :
    Tallies id c amount (f.memory.completions id scene.entity)
      ((t.execute scene id f).2.memory.completions id scene.entity) steps := by
  have hc : c ∈ s.children := List.mem_of_mem_head? hhead
  have hbegan : .began id true ∈ steps ↔ (judge scene id s f).1 = true := by
    rw [recounts.visited.began]
    exact eq_comm
  have htried : c ∈ executed steps ↔ c ∈ (t.callsIn scene id s f).map Prod.fst := by
    rw [← recounts.tried]
    simp [Step.tried, hc]
  have hcalls : t.callsIn scene id s f = if _ then [(c, _)] else [] := callsIn_limit hk hhead
  have honly : ∀ x ∈ Step.results s.children steps, x.1 = c := by
    rw [recounts.results, hcalls]
    split <;> simp
  have hcount := nested.completions_execute_limit scene f hk hhead hs
  refine ⟨?_, ?_, ?_, fun heq began => ?_⟩
  · rw [results_singleton hc honly, recounts.results, List.countP_map]
    exact hcount
  · rw [UInt32.le_iff_toNat_le, hcount, hcalls]
    split
    · next h =>
      have hlt := UInt32.lt_iff_toNat_lt.mp h.2
      exact Nat.le_trans (Nat.add_le_add_left List.countP_le_length _) hlt
    · exact UInt32.le_iff_toNat_le.mp hle
  · rw [htried, hbegan, hcalls]
    split
    · next h => simp [h]
    · next h => simp [h]
  · rw [recounts.self, nested.failed_of_limit hk hhead hs (hbegan.mp began) (UInt32.le_of_eq heq.symm)]

end BehaviorTree

namespace Agent

open BehaviorTree

/-! ## One operation -/

/-- The operation clears all that is remembered. -/
def Operation.Clears : Operation χ → Prop
  | .resetState | .setBehavior .. | .setCharacter .. => True
  | _ => False

/-- Agents as they are made, or after an operation that clears all that is remembered. -/
inductive Cleared : Agent χ → Prop where
  | fresh (entity : EntityId) (character : χ) (name : String) (root : TreeNode χ) :
      Cleared { entity, character, behavior := .ofNode name root }
  | perform {a : Agent χ} {op : Operation χ} (reachable : a.Reachable) (clears : op.Clears) : Cleared (a.perform op)

variable {a : Agent χ} {op : Operation χ} {ops : List (Operation χ)} {name : String} {root : TreeNode χ} {id c : Nat}
  {s : Slot χ} {amount : UInt32}

theorem Cleared.reachable (cleared : a.Cleared) : a.Reachable := by
  cases cleared with
  | fresh entity character name root => exact .fresh entity character name root
  | perform reachable => exact reachable.perform _

theorem Cleared.memory (cleared : a.Cleared) : a.memory = {} := by
  cases cleared with
  | fresh => rfl
  | @perform a op _ clears =>
      cases op with
      | resetState | setBehavior | setCharacter => rfl
      | update | setPaused | setSeed | setZone | changeBoard | changeCharacter => exact clears.elim

theorem perform_of_not_clears (keeps : ¬ op.Clears) :
    (a.perform op).behavior = a.behavior ∧ (a.perform op).entity = a.entity := by
  cases op with
  | update home delta => exact ⟨behavior_update, entity_update⟩
  | resetState | setBehavior | setCharacter => exact absurd trivial keeps
  | setPaused | setSeed | setZone | changeBoard | changeCharacter => exact ⟨rfl, rfl⟩

theorem tallies_perform (hb : a.behavior = .ofNode name root) (hs : a.behavior.slot? id = some s)
    (hk : s.kind = .limit amount) (hhead : s.children.head? = some c) (keeps : ¬ op.Clears)
    (hle : a.memory.completions id a.entity ≤ amount) :
    Tallies id c amount (a.memory.completions id a.entity) ((a.perform op).memory.completions id a.entity)
      (a.stepsOf op) := by
  have nested : a.behavior.Nested := hb ▸ nested_ofNode name root
  have hc : c ∈ s.children := List.mem_of_mem_head? hhead
  have hself := nested.mem_self hs
  have hchild := (nested.below hs hc (nested.self_mem_child hs hc)).2
  cases op with
  | update home delta =>
      rw [perform, memory_update, stepsOf]
      cases @encounter_update _ _ a home delta _ _ _ _ hb hs with
      | missed misses =>
          have hcount : (a.frameAfter home delta).memory.completions id a.entity = a.memory.completions id a.entity :=
            misses.2.1 id hself
          rw [hcount]
          exact tallies_of_silent hle (not_mem_executed_of_misses misses hself)
            (not_mem_executed_of_misses misses hchild) (results_of_misses misses hchild)
      | @met f spares recounts misses =>
          have hbefore : f.memory.completions id a.entity = a.memory.completions id a.entity := spares.2.1 id hself
          have hafter : (a.frameAfter home delta).memory.completions id a.entity = _ := misses.2.1 id hself
          rw [hafter, ← hbefore]
          exact recounts.tallies nested hs hk hhead (hbefore ▸ hle)
  | resetState | setBehavior | setCharacter => exact absurd trivial keeps
  | setPaused | setSeed | setZone | changeBoard | changeCharacter =>
      exact tallies_of_silent hle List.not_mem_nil List.not_mem_nil rfl

/-! ## Runs -/

theorem run_of_not_clears (keeps : ∀ op ∈ ops, ¬ op.Clears) :
    (a.run ops).behavior = a.behavior ∧ (a.run ops).entity = a.entity := by
  induction ops generalizing a with
  | nil => exact ⟨rfl, rfl⟩
  | cons op ops ih =>
      obtain ⟨hop, hops⟩ := List.forall_mem_cons.mp keeps
      obtain ⟨hbehavior, hentity⟩ := @perform_of_not_clears _ _ a op hop
      exact ⟨(ih hops).1.trans hbehavior, (ih hops).2.trans hentity⟩

section

variable (hb : a.behavior = .ofNode name root) (hs : a.behavior.slot? id = some s) (hk : s.kind = .limit amount)
  (hhead : s.children.head? = some c)

include hb hs hk hhead

/-- Over many operations, the count goes up by the executions of the child that had a result other than running. -/
theorem completions_run (keeps : ∀ op ∈ ops, ¬ op.Clears) (hle : a.memory.completions id a.entity ≤ amount) :
    ((a.run ops).memory.completions id a.entity).toNat =
        (a.memory.completions id a.entity).toNat + (resultsAlong [c] a ops).countP (·.2.isTerminal) ∧
      (a.run ops).memory.completions id a.entity ≤ amount := by
  induction ops generalizing a with
  | nil => exact ⟨rfl, hle⟩
  | cons op ops ih =>
      obtain ⟨hop, hops⟩ := List.forall_mem_cons.mp keeps
      obtain ⟨hbehavior, hentity⟩ := @perform_of_not_clears _ _ a op hop
      have tallies := tallies_perform hb hs hk hhead hop hle
      obtain ⟨hcount, hle⟩ := ih (hbehavior.trans hb) (hbehavior ▸ hs) hops (hentity.symm ▸ tallies.le)
      rw [hentity, tallies.count] at hcount
      rw [hentity] at hle
      rw [resultsAlong, List.countP_append, ← Nat.add_assoc]
      exact ⟨hcount, hle⟩

/-- A count that has reached the limit stays there. -/
theorem completions_run_of_eq (keeps : ∀ op ∈ ops, ¬ op.Clears) (heq : a.memory.completions id a.entity = amount) :
    (a.run ops).memory.completions id a.entity = amount := by
  obtain ⟨hcount, hle⟩ := completions_run hb hs hk hhead keeps (UInt32.le_of_eq heq)
  rw [heq] at hcount
  exact UInt32.le_antisymm hle (UInt32.le_iff_toNat_le.mpr (hcount ▸ Nat.le_add_right _ _))

end

/-- Between two operations that clear the whole state, the count of a limited node is the number of executions of its
child that had a result other than running, and it does not exceed the limit; forgetting a subtree leaves it alone. The
child is executed in the updates in which the node runs while the count is below the limit; once it has reached the
limit, the node fails whenever it runs, and the child is never executed again. -/
theorem limit_caps_completions (cleared : a.Cleared) (hs : a.behavior.slot? id = some s) (hk : s.kind = .limit amount)
    (hhead : s.children.head? = some c) (keeps : ∀ op ∈ ops, ¬ op.Clears) :
    ((a.run ops).memory.completions id a.entity).toNat = (resultsAlong [c] a ops).countP (·.2.isTerminal) ∧
      (a.run ops).memory.completions id a.entity ≤ amount ∧
      (∀ scene k (f : Frame χ),
        (a.behavior.reset scene k f).memory.completions id a.entity = f.memory.completions id a.entity ∧
          (a.behavior.resetBelow scene k f).memory.completions id a.entity = f.memory.completions id a.entity) ∧
      (∀ home delta, c ∈ executed ((a.run ops).update home delta).steps ↔
        .began id true ∈ ((a.run ops).update home delta).steps ∧
          (a.run ops).memory.completions id a.entity < amount) ∧
      ((a.run ops).memory.completions id a.entity = amount → ∀ later, (∀ op ∈ later, ¬ op.Clears) → ∀ home delta,
        (.began id true ∈ (((a.run ops).run later).update home delta).steps →
          results [id] (((a.run ops).run later).update home delta).steps = [(id, .failed)]) ∧
          c ∉ executed (((a.run ops).run later).update home delta).steps) := by
  obtain ⟨name, root, hb⟩ := cleared.reachable.behavior
  have hzero : a.memory.completions id a.entity = 0 := by rw [cleared.memory, Memory.completions_empty]
  obtain ⟨hcount, hle⟩ := completions_run hb hs hk hhead keeps (hzero ▸ UInt32.zero_le)
  obtain ⟨hbehavior, hentity⟩ := @run_of_not_clears _ _ a ops keeps
  have hb' : (a.run ops).behavior = .ofNode name root := hbehavior.trans hb
  have hs' : (a.run ops).behavior.slot? id = some s := hbehavior ▸ hs
  rw [← hentity] at hle ⊢
  refine ⟨?_, hle, fun scene k f => by simp, fun home delta => ?_, fun heq later keeps' home delta => ?_⟩
  · rw [hentity, hcount, hzero]
    exact Nat.zero_add _
  · exact (@tallies_perform _ _ _ (.update home delta) _ _ _ _ _ _ hb' hs' hk hhead nofun hle).child
  · obtain ⟨hbehavior', hentity'⟩ := @run_of_not_clears _ _ (a.run ops) later keeps'
    have hfull := completions_run_of_eq hb' hs' hk hhead keeps' heq
    rw [← hentity'] at hfull
    have tallies := @tallies_perform _ _ _ (.update home delta) _ _ _ _ _ _ (hbehavior'.trans hb')
      (hbehavior'.symm ▸ hs') hk hhead nofun (UInt32.le_of_eq hfull)
    refine ⟨tallies.failed hfull, fun hexecuted => ?_⟩
    have hlt := (tallies.child.mp hexecuted).2
    rw [hfull] at hlt
    exact UInt32.lt_irrefl _ hlt

/-- A leaf that may finish once. -/
theorem limit_caps_completions_once :
    let a : Agent Unit :=
      { entity := ⟨7⟩, character := ()
        behavior := .ofNode "" { TreeNode.ofKind (.limit 1) with children := [.idle 0] } }
    let b := a.run [.update none 5]
    let steps := ((b.run [.setSeed 3]).update none 5).steps
    a.Cleared ∧ 1 ∈ executed (a.update none 5).steps ∧ b.memory.completions NodeId.root a.entity = 1 ∧
      .began NodeId.root true ∈ steps ∧ results [NodeId.root] steps = [(NodeId.root, .failed)] ∧ 1 ∉ executed steps := by
  intro a b steps
  have cleared : a.Cleared := .fresh _ _ _ _
  have keeps : ∀ op ∈ ([.update none 5] : List (Operation Unit)), ¬ op.Clears := by simp [Operation.Clears]
  have later : ∀ op ∈ ([.setSeed 3] : List (Operation Unit)), ¬ op.Clears := by simp [Operation.Clears]
  have hfull : b.memory.completions NodeId.root a.entity = 1 := by decide +kernel
  have began : .began NodeId.root true ∈ steps := began_of_any (by decide +kernel)
  obtain ⟨-, -, -, -, capped⟩ := @limit_caps_completions _ _ a _ NodeId.root 1 _ 1 cleared rfl rfl rfl keeps
  obtain ⟨failed, never⟩ := capped hfull _ later none 5
  exact ⟨cleared, by decide +kernel, hfull, began, failed began, never⟩

end Agent

end Behavior
