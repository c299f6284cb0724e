import Behavior.Proofs.Agent.Operation
import Behavior.Proofs.Tree.Encounters
import Behavior.Proofs.Tree.Sequence
/-!
# Sequences over many updates

Between two operations, what a sequence remembers is which of its children were through: `SequenceTurn` for one
operation, and over a span of them each child in turn until it has a result other than running
(`inTurn_of_span`).
-/

namespace Behavior

variable {χ : Type}

namespace Agent

open BehaviorTree Step

variable [Character χ]

/-! ## Spans -/

section

variable (a : Agent χ)

/-- The steps that the tree takes in an operation. -/
def stepsOf : Operation χ → List (Step χ)
  | .update home delta => (a.update home delta).steps
  | _ => []

/-- What the executions of some nodes resulted in over a run, in order. -/
def resultsAlong (nodes : List NodeId) (a : Agent χ) : List (Operation χ) → List (NodeId × Status)
  | [] => []
  | op :: ops => results nodes (a.stepsOf op) ++ resultsAlong nodes (a.perform op) ops

/-- The operation changes neither the tree nor the entity, and no reset hits the node: after one, a node that had an
entry or was executed would have none. -/
structure Keeps (id : NodeId) (op : Operation χ) : Prop where
  behavior : (a.perform op).behavior = a.behavior
  entity : (a.perform op).entity = a.entity
  entry : id ∈ executed (a.stepsOf op) ∨ (a.memory.get? id a.entity).isSome →
    ((a.perform op).memory.get? id a.entity).isSome

end

/-- Operations up to the first one in which a node runs to a result other than running. Its guard may fail in the
others, or it may not be reached at all; but nothing resets it, and none of its children ends with an exception. -/
inductive Span (id : NodeId) (children : List NodeId) : Agent χ → List (Operation χ) → Status → Prop where
  | ends {a op r} (smooth : ∀ c ∈ children, .ended c .exception ∉ a.stepsOf op)
      (began : .began id true ∈ a.stepsOf op) (ended : .ended id r ∈ a.stepsOf op) (hr : r ≠ .running) :
      Span id children a [op] r
  | goesOn {a op ops r} (smooth : ∀ c ∈ children, .ended c .exception ∉ a.stepsOf op) (keeps : a.Keeps id op)
      (waits : .began id true ∈ a.stepsOf op → .ended id .running ∈ a.stepsOf op)
      (rest : Span id children (a.perform op) ops r) : Span id children a (op :: ops) r

/-! ## One operation -/

variable {a : Agent χ} {name : String} {root : TreeNode χ} {id : Nat} {s : Slot χ} {op : Operation χ}

/-- What an update does to a sequence is a turn of it, after which its subtree may be forgotten. -/
theorem exists_turn_update (hb : a.behavior = .ofNode name root) (hs : a.behavior.slot? id = some s)
    (hk : s.kind = .sequence) (home : Option Roster) (delta : UInt64) :
    ∃ m, a.behavior.SequenceTurn id s a.entity a.memory m (a.update home delta).steps ∧
      ((∀ n ∈ a.behavior.subtree id, (a.update home delta).agent.memory.get? n a.entity = m.get? n a.entity) ∨
        ∀ n ∈ a.behavior.subtree id, (a.update home delta).agent.memory.get? n a.entity = none) := by
  cases hp : a.paused with
  | true =>
      rw [update_of_paused hp]
      exact ⟨a.memory, .passed (by simp) rfl rfl, .inl fun _ _ => rfl⟩
  | false =>
      rw [update_of_awake hp]
      have nested : a.behavior.Nested := hb ▸ nested_ofNode name root
      have hroot : a.behavior.slot? NodeId.root = some (root.slot NodeId.root) := hb ▸ (holds_ofNode name root).slot
      have hid : id ∈ a.behavior.subtree NodeId.root := by
        rw [hb] at hs ⊢
        exact mem_subtree_root hs
      obtain ⟨new, m, hsteps, turn, hend⟩ :=
        nested.exists_turn_execute (a.scene home delta) hs hk hroot hid (a.frame delta)
      have hsteps : (a.execution home delta).2.steps = new := hsteps
      rw [hsteps]
      exact ⟨m, turn, hend⟩

theorem Keeps.absent (keeps : a.Keeps id op) (hgone : (a.perform op).memory.get? id a.entity = none) :
    id ∉ executed (a.stepsOf op) ∧ a.memory.get? id a.entity = none := by
  have hnot : ¬ (id ∈ executed (a.stepsOf op) ∨ (a.memory.get? id a.entity).isSome) := by
    intro h
    have hkept := keeps.entry h
    simp [hgone] at hkept
  exact (not_or.mp hnot).imp_right Option.not_isSome_iff_eq_none.mp

/-- An operation that keeps the entry of a sequence is a turn of it. -/
theorem Keeps.turn (keeps : a.Keeps id op) (hb : a.behavior = .ofNode name root)
    (hs : a.behavior.slot? id = some s) (hk : s.kind = .sequence) :
    a.behavior.SequenceTurn id s a.entity a.memory (a.perform op).memory (a.stepsOf op) := by
  have nested : a.behavior.Nested := hb ▸ nested_ofNode name root
  cases op with
  | update home delta =>
      obtain ⟨m, turn, hsame | hforgotten⟩ := exists_turn_update hb hs hk home delta
      · exact turn.memory nested hs (fun _ _ => rfl) hsame
      · -- what is forgotten was not there before
        have hgone := hforgotten id (nested.mem_self hs)
        obtain ⟨hnot, hnone⟩ := keeps.absent hgone
        cases turn with
        | passed _ silent _ => exact .passed hnot silent (Memory.selected_congr (hgone.trans hnone.symm))
        | refused visited | waits visited | breaks visited | ends visited => exact absurd visited.mem_executed hnot
  | resetState | setBehavior | setCharacter =>
      have hgone := Memory.get?_empty (n := id) (e := a.entity)
      obtain ⟨hnot, hnone⟩ := keeps.absent hgone
      exact .passed hnot rfl (Memory.selected_congr (hgone.trans hnone.symm))
  | setPaused | setSeed | setZone | changeBoard | changeCharacter => exact .passed (by simp [stepsOf]) rfl rfl

/-- Nothing is selected at the node, and nothing is remembered below it. -/
def Rests (a : Agent χ) (id : NodeId) : Prop :=
  a.selectedChild id = none ∧ ∀ n ∈ a.behavior.subtree id, n ≠ id → a.memory.get? n a.entity = none

/-- A run of a sequence that is over leaves nothing behind, whatever happens to the sequence afterwards. -/
theorem rests_perform (hb : a.behavior = .ofNode name root) (hs : a.behavior.slot? id = some s)
    (hk : s.kind = .sequence) {r : Status} (smooth : ∀ c ∈ s.children, .ended c .exception ∉ a.stepsOf op)
    (began : .began id true ∈ a.stepsOf op) (ended : .ended id r ∈ a.stepsOf op) (hr : r ≠ .running) :
    InTurn .finished (s.children.drop ((a.selectedChild id).getD 0)) (results s.children (a.stepsOf op)) r ∧
      (a.perform op).Rests id := by
  cases op with
  | update home delta =>
      have hself := (hb ▸ nested_ofNode name root : a.behavior.Nested).mem_self hs
      obtain ⟨m, turn, hend⟩ := exists_turn_update hb hs hk home delta
      obtain ⟨inTurn, selected, below⟩ := turn.over smooth began ended hr
      refine ⟨inTurn, ?_⟩
      simp only [Rests, perform, selectedChild, behavior_update, entity_update]
      cases hend with
      | inl hsame =>
          have hselected := Memory.selected_congr (hsame id hself)
          exact ⟨hselected.trans selected, fun n hn hne => (hsame n hn).trans (below n hn hne)⟩
      | inr hforgotten =>
          exact ⟨Memory.selected_of_none (hforgotten id hself), fun n hn _ => hforgotten n hn⟩
  | _ => cases began

/-! ## Runs -/

/-- Over a span the remaining children are executed in turn, from the one that is selected at its start. -/
theorem inTurn_of_span {ops : List (Operation χ)} {r : Status} (span : Span id s.children a ops r)
    (hb : a.behavior = .ofNode name root) (hs : a.behavior.slot? id = some s) (hk : s.kind = .sequence) :
    InTurn .finished (s.children.drop ((a.selectedChild id).getD 0)) (resultsAlong s.children a ops) r ∧
      (a.run ops).Rests id := by
  induction span with
  | ends smooth began ended hr =>
      rw [resultsAlong, resultsAlong, List.append_nil]
      exact rests_perform hb hs hk smooth began ended hr
  | @goesOn a op ops r smooth keeps waits _ ih =>
      obtain ⟨inTurn, rests⟩ := ih (keeps.behavior ▸ hb) (keeps.behavior ▸ hs)
      refine ⟨?_, rests⟩
      simp only [selectedChild, keeps.entity, resultsAlong] at inTurn ⊢
      rcases (keeps.turn hb hs hk).goesOn smooth waits with ⟨silent, selected⟩ | ⟨j, upTo, selected⟩
      · rw [silent, List.nil_append, ← selected]
        exact inTurn
      · rw [selected] at inTurn
        exact upTo.inTurn inTurn

/-- An operation in which a child of a sequence ends with an exception is one in which the sequence does. -/
theorem ended_of_exception (hb : a.behavior = .ofNode name root) (hs : a.behavior.slot? id = some s)
    (hk : s.kind = .sequence) {c : Nat} (hc : c ∈ s.children) (hit : .ended c .exception ∈ a.stepsOf op) :
    .ended id .exception ∈ a.stepsOf op := by
  cases op with
  | update home delta =>
      obtain ⟨m, turn, _⟩ := exists_turn_update hb hs hk home delta
      exact ((turn.exception (mem_results.mpr ⟨hc, hit⟩)).1.ended .exception).mpr rfl
  | _ => cases hit

/-- It leaves alone where the sequence resumes, and the children that it does not execute. -/
theorem Keeps.exception (keeps : a.Keeps id op) (hb : a.behavior = .ofNode name root)
    (hs : a.behavior.slot? id = some s) (hk : s.kind = .sequence) {c : Nat} (hc : c ∈ s.children)
    (hit : .ended c .exception ∈ a.stepsOf op) :
    (a.perform op).selectedChild id = a.selectedChild id ∧
      ∀ d ∈ s.children, d ∉ executed (a.stepsOf op) → ∀ n ∈ a.behavior.subtree d,
        (a.perform op).memory.get? n a.entity = a.memory.get? n a.entity := by
  simp only [selectedChild, keeps.entity]
  exact ((keeps.turn hb hs hk).exception (mem_results.mpr ⟨hc, hit⟩)).2

/-- An operation in which the guard of a sequence fails leaves alone where it resumes, and everything below it. -/
theorem Keeps.refused (keeps : a.Keeps id op) (hb : a.behavior = .ofNode name root)
    (hs : a.behavior.slot? id = some s) (hk : s.kind = .sequence) (began : .began id false ∈ a.stepsOf op) :
    (a.perform op).selectedChild id = a.selectedChild id ∧
      ∀ n ∈ a.behavior.subtree id, n ≠ id → (a.perform op).memory.get? n a.entity = a.memory.get? n a.entity := by
  simp only [selectedChild, keeps.entity]
  cases keeps.turn hb hs hk with
  | passed apart => exact absurd (mem_executed_of_began began) apart
  | refused _ _ selected below => exact ⟨selected, below⟩
  | waits visited | breaks visited | ends visited => cases (visited.began _).mp began

/-- Over many updates, a sequence with nothing selected executes its children one after the other in their order,
each until it has a result other than running, and ends with the first failure or the last result; then nothing is
selected and nothing is remembered below it. An exception of a child is passed on; where the sequence resumes and the
children that were not executed stay as they were, as all of it does when the guard fails. -/
theorem sequence_across_updates (hb : a.behavior = .ofNode name root) (hs : a.behavior.slot? id = some s)
    (hk : s.kind = .sequence) :
    (∀ ops r, Span id s.children a ops r → a.selectedChild id = none →
      InTurn .finished s.children (resultsAlong s.children a ops) r ∧
        (resultsAlong s.children a ops).Pairwise (fun x y => x.1 = y.1 → x.2 = .running) ∧ (a.run ops).Rests id) ∧
      (∀ op, ∀ c ∈ s.children, .ended c .exception ∈ a.stepsOf op →
        .ended id .exception ∈ a.stepsOf op ∧ (a.Keeps id op →
          (a.perform op).selectedChild id = a.selectedChild id ∧
            ∀ d ∈ s.children, d ∉ executed (a.stepsOf op) → ∀ n ∈ a.behavior.subtree d,
              (a.perform op).memory.get? n a.entity = a.memory.get? n a.entity)) ∧
      ∀ op, .began id false ∈ a.stepsOf op → a.Keeps id op →
        (a.perform op).selectedChild id = a.selectedChild id ∧
          ∀ n ∈ a.behavior.subtree id, n ≠ id →
            (a.perform op).memory.get? n a.entity = a.memory.get? n a.entity := by
  refine ⟨fun ops r span hnone => ?_, fun op c hc hit => ?_, fun op began keeps => ?_⟩
  · obtain ⟨inTurn, rests⟩ := inTurn_of_span span hb hs hk
    rw [hnone] at inTurn
    have nested : a.behavior.Nested := hb ▸ nested_ofNode name root
    exact ⟨inTurn, inTurn.pairwise (nested.nodup hs), rests⟩
  · exact ⟨ended_of_exception hb hs hk hc hit, fun keeps => keeps.exception hb hs hk hc hit⟩
  · exact keeps.refused hb hs hk began

/-- A child that waits and one that finishes at once, in two updates; and one that fails to answer, in one. -/
theorem sequence_across_updates_idle :
    let a : Agent Unit :=
      { entity := ⟨7⟩, character := ()
        behavior := .ofNode "" { TreeNode.ofKind .sequence with children := [.idle 5, .idle 0] } }
    let b : Agent Unit :=
      { a with behavior := .ofNode "" { TreeNode.ofKind .sequence with
          children := [.idle 0, .leaf { name := "Fault" } fun _ w => (.fault (.message "fault"), w)] } }
    let ops : List (Operation Unit) := [.update none 5, .update none 5]
    Span NodeId.root [1, 2] a ops .finished ∧ a.selectedChild NodeId.root = none ∧
      resultsAlong [1, 2] a ops = [(1, .running), (1, .finished), (2, .finished)] ∧
      InTurn .finished [1, 2] (resultsAlong [1, 2] a ops) .finished ∧ (a.run ops).Rests NodeId.root ∧
      .ended 2 .exception ∈ b.stepsOf (.update none 5) ∧
      .ended NodeId.root .exception ∈ b.stepsOf (.update none 5) := by
  intro a b ops
  have ended {c : Agent Unit} {op : Operation Unit} {n : NodeId} {r : Status}
      (h : (n, r) ∈ results [n] (c.stepsOf op)) : .ended n r ∈ c.stepsOf op := (mem_results.mp h).2
  have span : Span NodeId.root [1, 2] a ops .finished := by
    refine .goesOn (not_ended_of_results (by decide +kernel)) ⟨rfl, rfl, fun _ => by decide +kernel⟩
      (fun _ => ended (by decide +kernel)) ?_
    exact .ends (not_ended_of_results (by decide +kernel)) (began_of_any (by decide +kernel))
      (ended (by decide +kernel)) (by decide)
  have hit : .ended 2 .exception ∈ b.stepsOf (.update none 5) := ended (by decide +kernel)
  obtain ⟨inTurn, -, rests⟩ :=
    (@sequence_across_updates _ _ a "" _ NodeId.root _ rfl rfl rfl).1 ops .finished span (by decide +kernel)
  obtain ⟨-, broken, -⟩ := @sequence_across_updates _ _ b "" _ NodeId.root _ rfl rfl rfl
  exact ⟨span, by decide +kernel, by decide +kernel, inTurn, rests, hit, (broken _ 2 (by decide) hit).1⟩

end Agent

end Behavior
