import Behavior.Proofs.Condition
import Behavior.Proofs.Tree.Calls
/-!
# What leaves find in the cache

In the course of an execution guards are evaluated and tasks are called, each on a frame of its own
(`BehaviorTree.occurrences`). Main statement: each of them finds in the cache what the last filter condition before it
selected (`BehaviorTree.Nested.cached_execute`).
-/

namespace Behavior

variable {χ : Type}

/-- The guard of a node is evaluated on a frame, or the task of a leaf is called on one. -/
inductive Occurrence (χ : Type) where
  | guarded (scene : Scene) (node : NodeId) (guard : Condition χ) (frame : Frame χ)
  | called (scene : Scene) (node : NodeId) (frame : Frame χ)

namespace Occurrence

def frame : Occurrence χ → Frame χ
  | guarded _ _ _ f | called _ _ f => f

variable [Character χ]

/-- What the filter conditions in the guard selected, as far as they were evaluated. -/
def selections : Occurrence χ → List (List EntityId)
  | guarded scene _ k f => (k.course scene f.board f.character).selections
  | called .. => []

/-- The step of an execution that tells of it. -/
def step : Occurrence χ → Step χ
  | guarded scene n k f => .began n (k.evaluate scene f.board f.watch).1
  | called scene n f => BehaviorTree.calling scene n f

/-- Each finds in the cache what was selected last before it. -/
def Cached : List EntityId → List (Occurrence χ) → Prop
  | _, [] => True
  | cache, o :: os => o.frame.memory.filtered = cache ∧ Cached (latest o.selections cache) os

variable {cache : List EntityId} {o : Occurrence χ} {os os' : List (Occurrence χ)}

theorem cached_append : Cached cache (os ++ os') ↔ Cached cache os ∧ Cached (latest (os.flatMap selections) cache) os' := by
  induction os generalizing cache with
  | nil => simp [Cached]
  | cons o os ih => simp only [List.cons_append, Cached, ih, List.flatMap_cons, latest_append, and_assoc]

theorem Cached.filtered (h : Cached cache (os ++ o :: os')) :
    o.frame.memory.filtered = latest (os.flatMap selections) cache :=
  (cached_append.mp h).2.1

end Occurrence

/-- Whether the step is one that an execution takes before it has a result. -/
def Step.isOpening : Step χ → Bool
  | .ended .. => false
  | _ => true

namespace BehaviorTree

open Occurrence

variable [Character χ]

section

variable (t : BehaviorTree χ) (scene : Scene)

/-- What occurs in an execution of a node with at most `depth` levels, in order. -/
def occurrencesTo : (depth : Nat) → NodeId → Frame χ → List (Occurrence χ)
  | 0, _, _ => []
  | depth + 1, id, f =>
    match t.slot? id with
    | none => []
    | some s =>
      guarded scene id s.condition f :: ((taskIn scene id s f).map (called scene id) ++
        (t.callsIn scene id s f).flatMap fun x => occurrencesTo depth x.1 x.2)

/-- What occurs in an execution of a node, in order. -/
def occurrences (id : NodeId) (f : Frame χ) : List (Occurrence χ) := t.occurrencesTo scene (t.size - id) id f

end

variable {t : BehaviorTree χ} {scene : Scene} {run : Runner χ} {id : Nat} {s : Slot χ} {f g : Frame χ}
  {calls : List (Call χ)}

/-! ## One node -/

theorem Nested.occurrencesTo_congr (nested : t.Nested) {d d' : Nat} (h : t.size - id ≤ d) (h' : t.size - id ≤ d') :
    t.occurrencesTo scene d id f = t.occurrencesTo scene d' id f := by
  induction d generalizing d' id f with
  | zero =>
      have hnone : t.slot? id = none := Array.getElem?_eq_none (by simp only [size] at h; omega)
      cases d' <;> simp [occurrencesTo, hnone]
  | succ d ih =>
      cases hs : t.slot? id with
      | none => cases d' <;> simp [occurrencesTo, hs]
      | some s =>
          have hlt := lt_size hs
          cases d' with
          | zero => omega
          | succ d' =>
              simp only [occurrencesTo, hs]
              congr 2
              refine List.flatMap_congr fun x hx => ?_
              have hc : x.1 ∈ s.children := (callsIn_acts (nested.nodup hs) x hx).1
              have := (nested.below hs hc (nested.self_mem_child hs hc)).1
              exact ih (by omega) (by omega)

/-- The guard comes first, then the task, if the node is a leaf, or what occurs in the calls. -/
theorem Nested.occurrences_of_slot (nested : t.Nested) (hs : t.slot? id = some s) :
    t.occurrences scene id f = guarded scene id s.condition f :: ((taskIn scene id s f).map (called scene id) ++
      (t.callsIn scene id s f).flatMap fun x => t.occurrences scene x.1 x.2) := by
  have hlt := lt_size hs
  obtain ⟨d, hd⟩ : ∃ d, t.size - id = d + 1 := ⟨t.size - id - 1, by omega⟩
  simp only [occurrences, hd, occurrencesTo, hs]
  congr 2
  refine List.flatMap_congr fun x hx => ?_
  have hc : x.1 ∈ s.children := (callsIn_acts (nested.nodup hs) x hx).1
  have := (nested.below hs hc (nested.self_mem_child hs hc)).1
  exact nested.occurrencesTo_congr (by omega) (Nat.le_refl _)

/-- What occurs is what the steps tell of that an execution takes. -/
theorem Nested.opening_steps (nested : t.Nested) (hs : t.slot? id = some s) (f : Frame χ) :
    (added (t.execute scene) (id, f)).filter Step.isOpening = (t.occurrences scene id f).map step := by
  refine nested.induction (fun id => ∀ f, (added (t.execute scene) (id, f)).filter Step.isOpening =
    (t.occurrences scene id f).map step) ?_ hs f
  intro id s hs ih f
  have hcalls : ((t.callsIn scene id s f).flatMap (added (t.execute scene))).filter Step.isOpening =
      ((t.callsIn scene id s f).flatMap fun x => t.occurrences scene x.1 x.2).map step := by
    rw [List.filter_flatMap, List.map_flatMap]
    exact List.flatMap_congr fun x hx => ih x.1 (callsIn_acts (nested.nodup hs) x hx).1 x.2
  have htask : ((taskIn scene id s f).map (calling scene id)).filter Step.isOpening =
      ((taskIn scene id s f).map (called scene id)).map step := by
    rw [List.filter_eq_self.mpr, List.map_map]
    · rfl
    · intro st hst
      obtain ⟨_, _, rfl⟩ := List.mem_map.mp hst
      rfl
  rw [added_eq (nested.steps_execute_calls scene hs f), nested.occurrences_of_slot hs, List.filter_append,
    List.filter_cons_of_pos rfl, List.filter_append, hcalls, htask]
  simp [Step.isOpening, step, judge]

/-! ## The cache -/

omit [Character χ] in
/-- Only guards write the cache. -/
theorem tolerates_filtered : t.Tolerates scene id s fun f g => g.memory.filtered = f.memory.filtered where
  refl := rfl
  trans h h' := h'.trans h
  reset _ := by rw [memory_reset, filtered_resetState]
  resetBelow {f} := by rw [memory_resetBelow, filtered_resetState]
  setSelected := Memory.filtered_setSelected
  complete _ := rfl

/-- If each call of a node finds in the cache what it should and leaves there what it should, so do all of them. -/
theorem Passes.cached (passes : Passes run (fun f g => g.memory.filtered = f.memory.filtered) f calls g)
    {occurrences : Call χ → List (Occurrence χ)}
    (h : ∀ x ∈ calls, Cached x.2.memory.filtered (occurrences x) ∧
      (run x.1 x.2).2.memory.filtered = latest ((occurrences x).flatMap selections) x.2.memory.filtered) :
    Cached f.memory.filtered (calls.flatMap occurrences) ∧
      g.memory.filtered = latest ((calls.flatMap occurrences).flatMap selections) f.memory.filtered := by
  induction calls generalizing f with
  | nil => exact ⟨trivial, passes⟩
  | cons x xs ih =>
      obtain ⟨⟨hcached, hafter⟩, hxs⟩ := List.forall_mem_cons.mp h
      obtain ⟨hcached', hafter'⟩ := ih passes.2 hxs
      rw [passes.1] at hcached hafter
      rw [hafter] at hcached' hafter'
      rw [List.flatMap_cons, List.flatMap_append, latest_append]
      exact ⟨cached_append.mpr ⟨hcached, hcached'⟩, hafter'⟩

theorem filtered_judge (h : s.condition.IgnoresCache) : (judge scene id s f).2.memory.filtered =
    latest (s.condition.course scene f.board f.character).selections f.memory.filtered := by
  simp only [judge, Condition.evaluate_eq s.condition h]
  rfl

/-- In an execution, each guard and each task finds in the cache what the last filter condition before it selected, or
what was there before the execution; and so does what comes after it. -/
theorem Nested.cached_execute (nested : t.Nested) (ignores : ∀ n s, t.slot? n = some s → s.condition.IgnoresCache)
    (hs : t.slot? id = some s) (f : Frame χ) :
    Cached f.memory.filtered (t.occurrences scene id f) ∧ (t.execute scene id f).2.memory.filtered =
      latest ((t.occurrences scene id f).flatMap selections) f.memory.filtered := by
  refine nested.induction (fun id => ∀ f, Cached f.memory.filtered (t.occurrences scene id f) ∧
    (t.execute scene id f).2.memory.filtered =
      latest ((t.occurrences scene id f).flatMap selections) f.memory.filtered) ?_ hs f
  intro id s hs ih f
  have hjudge := @filtered_judge _ _ scene id s f (ignores id s hs)
  have passes : Passes (t.execute scene) _ (judge scene id s f).2 (t.callsIn scene id s f) _ :=
    tolerates_filtered.attempt fun task _ g => by
      obtain ⟨timer, hm⟩ := @memory_runTask _ scene id g task
      rw [hm]
      rfl
  obtain ⟨hcalls, hafter⟩ := passes.cached fun x hx => ih x.1 (callsIn_acts (nested.nodup hs) x hx).1 x.2
  -- the task finds what the guard leaves, and selects nothing
  have htask : Cached (judge scene id s f).2.memory.filtered ((taskIn scene id s f).map (called scene id)) ∧
      ((taskIn scene id s f).map (called scene id)).flatMap selections = [] := by
    rw [taskIn]
    split
    · exact ⟨⟨rfl, trivial⟩, rfl⟩
    · exact ⟨trivial, rfl⟩
  rw [nested.occurrences_of_slot hs, List.flatMap_cons, latest_append, List.flatMap_append, htask.2, List.nil_append,
    nested.execute_of_slot hs]
  rw [hjudge] at hcalls hafter htask
  refine ⟨⟨rfl, cached_append.mpr ⟨htask.1, ?_⟩⟩, ?_⟩
  · rw [htask.2]
    exact hcalls
  · simp only [visit, Frame.memory_note, Frame.memory_record]
    exact hafter

end BehaviorTree

end Behavior
