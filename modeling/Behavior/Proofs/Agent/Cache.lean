import Behavior.Proofs.Agent.Limit
import Behavior.Proofs.Tree.Occurrences
/-!
# The cache over many updates

Filter conditions leave what they select in the cache, and nothing else touches it until the agent's state is cleared.
Main statement: `leaf_sees_last_selection`.
-/

namespace Behavior.Agent

open BehaviorTree Occurrence Condition

variable {χ : Type} [Character χ]

section

variable (a : Agent χ)

/-- What occurs in an operation, in order. -/
def occurrencesOf : Operation χ → List (Occurrence χ)
  | .update home delta =>
    if a.paused then [] else a.behavior.occurrences (a.scene home delta) NodeId.root (a.frame delta)
  | _ => []

end

/-- What occurs over a run, in order. -/
def occurrencesAlong (a : Agent χ) : List (Operation χ) → List (Occurrence χ)
  | [] => []
  | op :: ops => a.occurrencesOf op ++ (a.perform op).occurrencesAlong ops

/-- The steps that the tree takes over a run. -/
def stepsAlong (a : Agent χ) : List (Operation χ) → List (Step χ)
  | [] => []
  | op :: ops => a.stepsOf op ++ (a.perform op).stepsAlong ops

variable {a : Agent χ} {op : Operation χ} {ops : List (Operation χ)} {name : String} {root : TreeNode χ}

/-! ## One operation -/

theorem opening_stepsOf (hb : a.behavior = .ofNode name root) :
    (a.stepsOf op).filter Step.isOpening = (a.occurrencesOf op).map step := by
  cases op with
  | update home delta =>
      cases hp : a.paused with
      | true => simp [stepsOf, occurrencesOf, update_of_paused hp, hp]
      | false =>
          have nested : a.behavior.Nested := hb ▸ nested_ofNode name root
          have hroot : a.behavior.slot? NodeId.root = some (root.slot NodeId.root) := hb ▸ (holds_ofNode name root).slot
          have hsteps : (a.execution home delta).2.steps =
              added (a.behavior.execute (a.scene home delta)) (NodeId.root, a.frame delta) :=
            (nested.steps_added _ NodeId.root (a.frame delta)).1
          simp only [stepsOf, occurrencesOf, update_of_awake hp, hp, hsteps]
          exact nested.opening_steps hroot (a.frame delta)
  | resetState | setBehavior | setCharacter | setPaused | setSeed | setZone | changeBoard | changeCharacter => rfl

theorem cached_perform (hb : a.behavior = .ofNode name root) (keeps : ¬ op.Clears)
    (ignores : ∀ id s, a.behavior.slot? id = some s → s.condition.IgnoresCache) :
    Cached a.memory.filtered (a.occurrencesOf op) ∧
      (a.perform op).memory.filtered = latest ((a.occurrencesOf op).flatMap selections) a.memory.filtered := by
  cases op with
  | update home delta =>
      cases hp : a.paused with
      | true => simp [occurrencesOf, perform, update_of_paused hp, hp, Cached]
      | false =>
          have nested : a.behavior.Nested := hb ▸ nested_ofNode name root
          have hroot : a.behavior.slot? NodeId.root = some (root.slot NodeId.root) := hb ▸ (holds_ofNode name root).slot
          simp only [occurrencesOf, perform, update_of_awake hp, hp]
          exact nested.cached_execute ignores hroot (a.frame delta)
  | resetState | setBehavior | setCharacter => exact absurd trivial keeps
  | setPaused | setSeed | setZone | changeBoard | changeCharacter => exact ⟨trivial, rfl⟩

/-! ## Runs -/

theorem opening_stepsAlong (hb : a.behavior = .ofNode name root) (keeps : ∀ op ∈ ops, ¬ op.Clears) :
    (a.stepsAlong ops).filter Step.isOpening = (a.occurrencesAlong ops).map step := by
  induction ops generalizing a with
  | nil => rfl
  | cons op ops ih =>
      obtain ⟨hop, hops⟩ := List.forall_mem_cons.mp keeps
      have hb' : (a.perform op).behavior = .ofNode name root := (perform_of_not_clears hop).1.trans hb
      rw [stepsAlong, occurrencesAlong, List.filter_append, List.map_append, opening_stepsOf hb, ih hb' hops]

theorem cached_run (hb : a.behavior = .ofNode name root) (keeps : ∀ op ∈ ops, ¬ op.Clears)
    (ignores : ∀ id s, a.behavior.slot? id = some s → s.condition.IgnoresCache) :
    Cached a.memory.filtered (a.occurrencesAlong ops) := by
  induction ops generalizing a with
  | nil => trivial
  | cons op ops ih =>
      obtain ⟨hop, hops⟩ := List.forall_mem_cons.mp keeps
      obtain ⟨hbehavior, -⟩ := @perform_of_not_clears _ _ a op hop
      obtain ⟨hcached, hafter⟩ := cached_perform hb hop ignores
      have hrest := ih (hbehavior.trans hb) hops (hbehavior.symm ▸ ignores)
      rw [hafter] at hrest
      exact cached_append.mpr ⟨hcached, hrest⟩

/-- Where a step begins that has no result yet, the steps before it tell of what occurred before. -/
theorem exists_occurrence_of_step {steps before after : List (Step χ)} {os : List (Occurrence χ)} {st : Step χ}
    (h : steps.filter Step.isOpening = os.map step) (hsplit : steps = before ++ st :: after)
    (hst : st.isOpening = true) :
    ∃ earlier o later, os = earlier ++ o :: later ∧ earlier.map step = before.filter Step.isOpening ∧ o.step = st := by
  rw [hsplit, List.filter_append, List.filter_cons_of_pos hst] at h
  obtain ⟨earlier, rest, rfl, hearlier, hrest⟩ := List.map_eq_append_iff.mp h.symm
  obtain ⟨o, later, rfl, ho, -⟩ := List.map_eq_cons_iff.mp hrest
  exact ⟨earlier, o, later, rfl, hearlier, ho⟩

/-- Unless tests by the game read or write the cache, a condition comes to its verdict whatever is there, and leaves
there what the last filter condition selected that was evaluated, from left to right as far as needed; if there was
none, the cache is as before, and the character is in any case but for marks that the game's tests and selections
leave. A filter condition selects what its filters select one after another since the last one that drops everything;
one inside another filter drops only what that one has collected. So over any run in which nothing clears the state, a
leaf finds in the cache what the last filter condition selected that was evaluated in this update or an earlier one. -/
theorem leaf_sees_last_selection :
    (∀ k : Condition χ, k.IgnoresCache → ∀ scene board w,
      let r := k.course scene board w.character
      k.evaluate scene board w = (r.holds, ⟨r.character, r.selections.getLast?.getD w.filtered⟩) ∧
        (k.Unmarking → r.character = w.character)) ∧
    (∀ l (fs : List (Filter χ)), (∀ f ∈ fs, f.Fixed) → ∀ scene board c,
      let es := (fs.rtakeWhile fun f => !f.empties).flatMap (·.output scene board ⟨c, []⟩)
      (filter l fs).course scene board c = { holds := !es.isEmpty, character := c, selections := [es] }) ∧
    (∀ f : Filter χ, f.Fixed → f.empties = false → ∀ scene board w out,
      f.apply scene board w out = (out ++ f.output scene board w, w.character)) ∧
    ∀ (a : Agent χ) (ops : List (Operation χ)), a.Cleared → (∀ op ∈ ops, ¬ op.Clears) →
      (∀ id s, a.behavior.slot? id = some s → s.condition.IgnoresCache) →
      (a.stepsAlong ops).filter Step.isOpening = (a.occurrencesAlong ops).map step ∧
      ∀ before context character timer board after,
        a.stepsAlong ops = before ++ .called context character timer board :: after →
        ∃ earlier o later, a.occurrencesAlong ops = earlier ++ o :: later ∧
          earlier.map step = before.filter Step.isOpening ∧ o.step = .called context character timer board ∧
          context.filtered = (earlier.flatMap selections).getLast?.getD [] := by
  refine ⟨fun k h scene board w => ⟨evaluate_eq k h w, fun hmark => character_course k hmark w.character⟩,
    fun l fs h scene board c => course_filter h c, fun f h hf scene board w out => Filter.apply_eq_append h hf,
    fun a ops cleared keeps ignores => ?_⟩
  obtain ⟨name, root, hb⟩ := cleared.reachable.behavior
  have hopening := opening_stepsAlong hb keeps
  have hcached : Cached [] (a.occurrencesAlong ops) := by
    have h := cached_run hb keeps ignores
    rwa [cleared.memory] at h
  refine ⟨hopening, fun before context character timer board after hsplit => ?_⟩
  obtain ⟨earlier, o, later, hos, hearlier, ho⟩ := exists_occurrence_of_step hopening hsplit rfl
  refine ⟨earlier, o, later, hos, hearlier, ho, ?_⟩
  rw [hos] at hcached
  cases o with
  | guarded => cases ho
  | called scene n f =>
      cases ho
      exact hcached.filtered

/-- A sequence that goes on, in its second update, after the child whose guard has selected two entities. -/
theorem leaf_sees_last_selection_later :
    let first : TreeNode Unit := { TreeNode.print "" with condition := .selects [.everybody] }
    let root : TreeNode Unit := { TreeNode.ofKind .sequence with children := [first, .idle 100] }
    let a : Agent Unit := { entity := ⟨1⟩, character := (), behavior := .ofNode "" root }
    let ops : List (Operation Unit) :=
      [.setZone (.group { name := "", ids := [⟨1⟩, ⟨2⟩, ⟨3⟩] }), .update none 5, .setZone .nowhere, .update none 5]
    let sights := (a.stepsAlong ops).filterMap fun
      | .called context .. => some (context.node, context.filtered)
      | _ => none
    a.Cleared ∧ (∀ op ∈ ops, ¬ op.Clears) ∧ (∀ id s, a.behavior.slot? id = some s → s.condition.IgnoresCache) ∧
      first.condition.evaluate (a.scene none 5) {} ⟨(), [⟨4⟩]⟩ = (false, ⟨(), []⟩) ∧
      (a.occurrencesAlong ops).flatMap selections = [[⟨2⟩, ⟨3⟩]] ∧
      sights = [(1, [⟨2⟩, ⟨3⟩]), (2, [⟨2⟩, ⟨3⟩]), (2, [⟨2⟩, ⟨3⟩])] ∧
      (a.stepsAlong ops).filter Step.isOpening = (a.occurrencesAlong ops).map step := by
  intro first root a ops sights
  have cleared : a.Cleared := .fresh _ _ _ _
  have keeps : ∀ op ∈ ops, ¬ op.Clears := by simp [ops, Operation.Clears]
  have ignores : ∀ id s, a.behavior.slot? id = some s → s.condition.IgnoresCache := by
    intro id s hs
    obtain ⟨n, hn, -, rfl⟩ := exists_holds_of_slot hs
    have hn : n ∈ [root, first, .idle 100] := hn
    simp only [List.mem_cons, List.not_mem_nil, or_false] at hn
    rcases hn with rfl | rfl | rfl
    · trivial
    · exact List.forall_mem_singleton.mpr trivial
    · trivial
  obtain ⟨verdict, -, -, run⟩ := @leaf_sees_last_selection Unit _
  have hfirst : first.condition.IgnoresCache := List.forall_mem_singleton.mpr trivial
  exact ⟨cleared, keeps, ignores, (verdict _ hfirst _ _ _).1, by decide +kernel, by decide +kernel,
    (run a ops cleared keeps ignores).1⟩

end Behavior.Agent
