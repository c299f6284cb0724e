import Behavior.Proofs.Tree.Sequence
/-!
# The calls of a node

Which children a node executes when it runs, in which order, and on which frames (`callsOf`). What else the node does
lies between its calls (`Tolerates.perform`), so its steps are theirs (`Nested.steps_execute_calls`), and a child that
it calls is as the node found it (`calls_acts`). Over the whole tree, `Executes` tells on which frames an execution
comes to the nodes below: those are the guards that its steps tell of (`Nested.began_iff_executes`), and each node is
found as it was before the execution (`Executes.agree`).
-/

namespace Behavior

theorem NodeKind.isLeaf_of_ne_task {χ : Type} {k : NodeKind χ} (h : ∀ task, k ≠ .task task) : k.isLeaf = false := by
  cases k with
  | task task => exact absurd rfl (h task)
  | _ => rfl

namespace BehaviorTree

open Step

variable {χ : Type}

/-- A child with the frame that it is executed on. -/
abbrev Call (χ : Type) := NodeId × Frame χ

section

variable (t : BehaviorTree χ) (scene : Scene) (run : Runner χ)

def sequenceCalls : List NodeId → Frame χ → List (Call χ)
  | [], _ => []
  | c :: cs, f =>
    (c, f) :: match (run c f).1 with
      | .unknown | .finished => sequenceCalls cs (run c f).2
      | _ => []

def priorityCalls (id : NodeId) : List NodeId → Frame χ → List (Call χ)
  | [], _ => []
  | c :: cs, f =>
    (c, f) :: if (run c f).1.isFailure then
        priorityCalls id cs ((t.reset scene c (run c f).2).setSelected scene id none)
      else []

/-- The frame after the call of a child that is forgotten unless it is left running. -/
def afterCall (c : NodeId) (f : Frame χ) : Frame χ :=
  if (run c f).1.isRunning then (run c f).2 else t.reset scene c (run c f).2

def eachCalls : List NodeId → Frame χ → List (Call χ)
  | [], _ => []
  | c :: cs, f => (c, f) :: eachCalls cs (t.afterCall scene run c f)

def headCalls (children : List NodeId) (f : Frame χ) : List (Call χ) := (children.head?.map (·, f)).toList

def chosenCalls (id : NodeId) (weights : List Float32) (children : List NodeId) (f : Frame χ) : List (Call χ) :=
  match (resumable? scene id children f).or (choice? scene id weights children) with
  | none => []
  | some i => (children[i]?.map (·, t.resetAll scene (children.eraseIdx i) f)).toList

/-- What a node calls when it runs on a frame, in order. -/
def callsOf (id : NodeId) (s : Slot χ) (f : Frame χ) : List (Call χ) :=
  match s.kind with
  | .sequence => sequenceCalls run (s.children.drop ((f.selected scene id).getD 0)) f
  | .prioritySelector =>
    let start := min ((f.selected scene id).getD 0) s.children.length
    t.priorityCalls scene run id (s.children.drop start) (t.resetAll scene (s.children.take start) f)
  | .probabilitySelector weights => t.chosenCalls scene id weights s.children f
  | .randomSelector =>
    t.eachCalls scene run ((scene.tick.generator scene.entity (UInt64.ofNat id)).shuffle s.children).1 f
  | .parallel => t.eachCalls scene run s.children f
  | .invert | .succeed | .fail => headCalls s.children f
  | .limit amount => if amount ≤ f.memory.completions id scene.entity then [] else headCalls s.children f
  | .task _ => []

/-- The steps that a call adds. -/
def added (x : Call χ) : List (Step χ) := (run x.1 x.2).2.steps.drop x.2.steps.length

end

variable {t : BehaviorTree χ} {scene : Scene} {run : Runner χ} {id : Nat} {s : Slot χ} {f g : Frame χ}

theorem added_eq {c : NodeId} {new : List (Step χ)} (h : (run c f).2.steps = f.steps ++ new) :
    added run (c, f) = new := by
  rw [added, h, List.drop_left]

/-! ## Between the calls -/

variable (run) in
/-- From one frame to another by these calls, and by what `R` allows before, between and after them. -/
def Passes (R : Frame χ → Frame χ → Prop) : Frame χ → List (Call χ) → Frame χ → Prop
  | f, [], g => R f g
  | f, x :: xs, g => R f x.2 ∧ Passes R (run x.1 x.2).2 xs g

/-- A node may do to a frame what it does itself, without calling a child. -/
structure Tolerates (t : BehaviorTree χ) (scene : Scene) (id : NodeId) (s : Slot χ) (R : Frame χ → Frame χ → Prop) :
    Prop where
  refl {f : Frame χ} : R f f
  trans {f g h : Frame χ} : R f g → R g h → R f h
  reset {f : Frame χ} {c : NodeId} : c ∈ s.children → R f (t.reset scene c f)
  resetBelow {f : Frame χ} : R f (t.resetBelow scene id f)
  setSelected {f : Frame χ} {i : Option Nat} : R f (f.setSelected scene id i)
  complete {f : Frame χ} {amount : UInt32} : s.kind = .limit amount → R f (f.complete scene id)

theorem runEach_cons {c : NodeId} {cs : List NodeId} {overall : Status} :
    ∃ overall', t.runEach scene run (c :: cs) overall f =
      t.runEach scene run cs overall' (t.afterCall scene run c f) := by
  simp only [runEach, afterCall]
  split
  · exact ⟨_, rfl⟩
  · exact ⟨_, rfl⟩

/-- Running all children in a given order is the same to them whatever is made of their results. -/
theorem parallelFrom_eq {cs running overall} :
    (t.parallelFrom scene run cs running f).2 = (t.runEach scene run cs overall f).2 := by
  induction cs generalizing running overall f with
  | nil => rfl
  | cons c cs ih =>
      simp only [parallelFrom, runEach]
      split
      · exact ih
      · exact ih

namespace Tolerates

variable {R : Frame χ → Frame χ → Prop} {h : Frame χ} {cs : List NodeId}

theorem before (tolerates : t.Tolerates scene id s R) {calls : List (Call χ)} (hR : R f g)
    (hcalls : Passes run R g calls h) : Passes run R f calls h := by
  cases calls with
  | nil => exact tolerates.trans hR hcalls
  | cons x xs => exact ⟨tolerates.trans hR hcalls.1, hcalls.2⟩

theorem after (tolerates : t.Tolerates scene id s R) {calls : List (Call χ)} (hcalls : Passes run R f calls g)
    (hR : R g h) : Passes run R f calls h := by
  induction calls generalizing f with
  | nil => exact tolerates.trans hcalls hR
  | cons x xs ih => exact ⟨hcalls.1, ih hcalls.2⟩

theorem resetAll (tolerates : t.Tolerates scene id s R) (hcs : ∀ c ∈ cs, c ∈ s.children) :
    R f (t.resetAll scene cs f) := by
  induction cs generalizing f with
  | nil => exact tolerates.refl
  | cons c cs ih =>
      obtain ⟨hc, hcs⟩ := List.forall_mem_cons.mp hcs
      exact tolerates.trans (tolerates.reset hc) (ih hcs)

theorem sequenceFrom (tolerates : t.Tolerates scene id s R) {i last} :
    Passes run R f (sequenceCalls run cs f) (t.sequenceFrom scene run id i cs last f).2 := by
  induction cs generalizing i last f with
  | nil => exact tolerates.resetBelow
  | cons c cs ih =>
      simp only [BehaviorTree.sequenceFrom, sequenceCalls]
      refine ⟨tolerates.refl, ?_⟩
      cases (run c f).1 with
      | running => exact tolerates.setSelected
      | cannotExecute | failed => exact tolerates.resetBelow
      | exception => exact tolerates.refl
      | unknown | finished => exact ih

theorem priorityFrom (tolerates : t.Tolerates scene id s R) {i} (hcs : ∀ c ∈ cs, c ∈ s.children) :
    Passes run R f (t.priorityCalls scene run id cs f) (t.priorityFrom scene run id i cs f).2.2 ∧
      ∀ c ∈ (t.priorityFrom scene run id i cs f).2.1, c ∈ cs := by
  induction cs generalizing i f with
  | nil => exact ⟨tolerates.refl, nofun⟩
  | cons c cs ih =>
      obtain ⟨hc, hcs⟩ := List.forall_mem_cons.mp hcs
      have hreset {f} : R f (t.reset scene c f) := tolerates.reset hc
      simp only [BehaviorTree.priorityFrom, priorityCalls]
      cases (run c f).1 with
      | running => exact ⟨⟨tolerates.refl, tolerates.setSelected⟩, fun _ => List.mem_cons_of_mem c⟩
      | cannotExecute | failed =>
          obtain ⟨hcalls, hrest⟩ := @ih ((t.reset scene c (run c f).2).setSelected scene id none) (i + 1) hcs
          exact ⟨⟨tolerates.refl, tolerates.before (tolerates.trans hreset tolerates.setSelected) hcalls⟩,
            fun c' hc' => List.mem_cons_of_mem c (hrest c' hc')⟩
      | unknown | finished | exception =>
          exact ⟨⟨tolerates.refl, tolerates.trans tolerates.setSelected hreset⟩, fun _ => List.mem_cons_of_mem c⟩

theorem runEach (tolerates : t.Tolerates scene id s R) {overall} (hcs : ∀ c ∈ cs, c ∈ s.children) :
    Passes run R f (t.eachCalls scene run cs f) (t.runEach scene run cs overall f).2 := by
  induction cs generalizing overall f with
  | nil => exact tolerates.refl
  | cons c cs ih =>
      obtain ⟨hc, hcs⟩ := List.forall_mem_cons.mp hcs
      have hafter : R (run c f).2 (t.afterCall scene run c f) := by
        rw [afterCall]
        split
        · exact tolerates.refl
        · exact tolerates.reset hc
      obtain ⟨overall', hrest⟩ := @runEach_cons _ t scene run f c cs overall
      rw [hrest]
      exact ⟨tolerates.refl, tolerates.before hafter (ih hcs)⟩

theorem probabilitySelector (tolerates : t.Tolerates scene id s R) {weights} :
    Passes run R f (t.chosenCalls scene id weights s.children f)
      (t.probabilitySelector scene run id weights s.children f).2 := by
  simp only [BehaviorTree.probabilitySelector, chosenCalls]
  cases (resumable? scene id s.children f).or (choice? scene id weights s.children) with
  | none => exact tolerates.refl
  | some i =>
      have hothers : R f (t.resetAll scene (s.children.eraseIdx i) f) :=
        tolerates.resetAll fun c hc => List.mem_of_mem_eraseIdx hc
      cases hi : s.children[i]? with
      | none =>
          simp only [hi]
          exact hothers
      | some c =>
          simp only [hi]
          refine ⟨hothers, ?_⟩
          split
          · exact tolerates.setSelected
          · exact tolerates.trans tolerates.setSelected (tolerates.reset (List.mem_of_getElem? hi))

theorem decorate (tolerates : t.Tolerates scene id s R) {map : Status → Status} :
    Passes run R f (headCalls s.children f) (decorate run map s.children f).2 := by
  cases s.children with
  | nil => exact tolerates.refl
  | cons c cs => exact ⟨tolerates.refl, tolerates.refl⟩

theorem limit (tolerates : t.Tolerates scene id s R) {amount : UInt32} (hk : s.kind = .limit amount) :
    Passes run R f (if amount ≤ f.memory.completions id scene.entity then [] else headCalls s.children f)
      (limit scene run id amount s.children f).2 := by
  cases s.children with
  | nil =>
      simp only [BehaviorTree.limit, headCalls, List.head?_nil, Option.map_none, Option.toList_none, ite_self]
      exact tolerates.refl
  | cons c cs =>
      simp only [BehaviorTree.limit, List.head?_cons, headCalls]
      split
      · exact tolerates.refl
      · refine ⟨tolerates.refl, ?_⟩
        dsimp only
        split
        · exact tolerates.refl
        · exact tolerates.complete hk

/-- A node that is no leaf passes from call to call. -/
theorem perform (tolerates : t.Tolerates scene id s R) (leaf : ∀ task, s.kind ≠ .task task) :
    Passes run R f (t.callsOf scene run id s f) (t.perform scene run id s f).2 := by
  cases hk : s.kind with
  | sequence =>
      simp only [BehaviorTree.perform, callsOf, hk]
      exact tolerates.sequenceFrom
  | prioritySelector =>
      simp only [BehaviorTree.perform, callsOf, hk, prioritySelector]
      generalize min ((f.selected scene id).getD 0) s.children.length = start
      have hfirst : R f (t.resetAll scene (s.children.take start) f) :=
        tolerates.resetAll fun c hc => List.mem_of_mem_take hc
      obtain ⟨hcalls, hrest⟩ := @Tolerates.priorityFrom _ t scene run id s (t.resetAll scene (s.children.take start) f) R
        (s.children.drop start) tolerates start fun c hc => List.mem_of_mem_drop hc
      exact tolerates.before hfirst (tolerates.after hcalls
        (tolerates.resetAll fun c hc => List.mem_of_mem_drop (hrest c hc)))
  | probabilitySelector weights =>
      simp only [BehaviorTree.perform, callsOf, hk]
      exact tolerates.probabilitySelector
  | randomSelector =>
      simp only [BehaviorTree.perform, callsOf, hk]
      exact tolerates.runEach fun _ hc => (Generator.shuffle_perm _ _).mem_iff.mp hc
  | parallel =>
      have hall : Passes run R f (t.eachCalls scene run s.children f) (t.parallelFrom scene run s.children false f).2 := by
        rw [@parallelFrom_eq _ t scene run f _ _ .finished]
        exact tolerates.runEach fun _ hc => hc
      simp only [BehaviorTree.perform, callsOf, hk, parallel]
      split <;> next hp => rw [hp] at hall; first | exact hall | exact tolerates.after hall tolerates.resetBelow
  | invert | succeed | fail =>
      simp only [BehaviorTree.perform, callsOf, hk]
      exact tolerates.decorate
  | limit amount =>
      simp only [BehaviorTree.perform, callsOf, hk]
      exact tolerates.limit hk
  | task task => exact absurd hk (leaf task)

end Tolerates

/-- What the calls keep within a relation, a node that is no leaf keeps within it. -/
theorem Passes.rel {R : Frame χ → Frame χ → Prop} (tolerates : t.Tolerates scene id s R) {calls : List (Call χ)}
    (hcalls : Passes run R f calls g) (hrun : ∀ x ∈ calls, R x.2 (run x.1 x.2).2) : R f g := by
  induction calls generalizing f with
  | nil => exact hcalls
  | cons x xs ih =>
      obtain ⟨hx, hxs⟩ := List.forall_mem_cons.mp hrun
      exact tolerates.trans (tolerates.trans hcalls.1 hx) (ih hcalls.2 hxs)

/-- Only its calls take steps, as long as a node is no leaf. -/
theorem tolerates_steps : t.Tolerates scene id s fun f g => g.steps = f.steps where
  refl := rfl
  trans h h' := h'.trans h
  reset _ := steps_reset
  resetBelow := steps_resetBelow
  setSelected := rfl
  complete _ := rfl

theorem Passes.steps {calls : List (Call χ)} (hcalls : Passes run (fun f g => g.steps = f.steps) f calls g)
    (hrun : ∀ x ∈ calls, (run x.1 x.2).2.steps = x.2.steps ++ added run x) :
    g.steps = f.steps ++ calls.flatMap (added run) := by
  induction calls generalizing f with
  | nil => exact hcalls.trans (List.append_nil _).symm
  | cons x xs ih =>
      obtain ⟨hx, hxs⟩ := List.forall_mem_cons.mp hrun
      rw [ih hcalls.2 hxs, hx, hcalls.1, List.flatMap_cons, List.append_assoc]

/-! ## The frames of the calls -/

section Acts

variable {children used : List NodeId}

theorem sequenceCalls_acts {cs : List NodeId} (acts : t.Acts scene run id children f used g)
    (hcs : ∀ c ∈ cs, c ∈ children ∧ c ∉ used) (nodup : cs.Nodup) :
    ∀ x ∈ sequenceCalls run cs g, x.1 ∈ children ∧ ∃ used', t.Acts scene run id children f used' x.2 ∧ x.1 ∉ used' := by
  induction cs generalizing g used with
  | nil => exact nofun
  | cons c cs ih =>
      obtain ⟨hc, hnew⟩ := hcs c List.mem_cons_self
      have hcs' : ∀ c' ∈ cs, c' ∈ children ∧ c' ∉ c :: used := by grind
      simp only [sequenceCalls]
      refine List.forall_mem_cons.mpr ⟨⟨hc, used, acts, hnew⟩, ?_⟩
      split
      · exact ih (acts.run hc hnew) hcs' nodup.of_cons
      · exact ih (acts.run hc hnew) hcs' nodup.of_cons
      · exact nofun

theorem priorityCalls_acts {cs : List NodeId} (acts : t.Acts scene run id children f used g)
    (hcs : ∀ c ∈ cs, c ∈ children ∧ c ∉ used) (nodup : cs.Nodup) :
    ∀ x ∈ t.priorityCalls scene run id cs g,
      x.1 ∈ children ∧ ∃ used', t.Acts scene run id children f used' x.2 ∧ x.1 ∉ used' := by
  induction cs generalizing g used with
  | nil => exact nofun
  | cons c cs ih =>
      obtain ⟨hc, hnew⟩ := hcs c List.mem_cons_self
      simp only [priorityCalls]
      refine List.forall_mem_cons.mpr ⟨⟨hc, used, acts, hnew⟩, ?_⟩
      split
      · exact ih (((acts.run hc hnew).reset hc).select none) (by grind) nodup.of_cons
      · exact nofun

theorem eachCalls_acts {cs : List NodeId} (acts : t.Acts scene run id children f used g)
    (hcs : ∀ c ∈ cs, c ∈ children ∧ c ∉ used) (nodup : cs.Nodup) :
    ∀ x ∈ t.eachCalls scene run cs g,
      x.1 ∈ children ∧ ∃ used', t.Acts scene run id children f used' x.2 ∧ x.1 ∉ used' := by
  induction cs generalizing g used with
  | nil => exact nofun
  | cons c cs ih =>
      obtain ⟨hc, hnew⟩ := hcs c List.mem_cons_self
      simp only [eachCalls, afterCall]
      refine List.forall_mem_cons.mpr ⟨⟨hc, used, acts, hnew⟩, ?_⟩
      split
      · exact ih (acts.run hc hnew) (by grind) nodup.of_cons
      · exact ih ((acts.run hc hnew).reset hc) (by grind) nodup.of_cons

theorem headCalls_acts :
    ∀ x ∈ headCalls children f,
      x.1 ∈ children ∧ ∃ used', t.Acts scene run id children f used' x.2 ∧ x.1 ∉ used' := by
  intro x hx
  simp only [headCalls, Option.mem_toList, Option.map_eq_some_iff] at hx
  obtain ⟨c, hc, rfl⟩ := hx
  exact ⟨List.mem_of_mem_head? hc, [], .start, by simp⟩

/-- What forgetting some of the children touches. -/
theorem resetAll_acts_start {cs : List NodeId} (hcs : ∀ c ∈ cs, c ∈ children) :
    ∃ used', t.Acts scene run id children f used' (t.resetAll scene cs f) ∧ ∀ c, c ∉ cs → c ∉ used' := by
  have begun : t.Acts scene run id children f [] f := .start
  obtain ⟨used', acts, hsub⟩ := resetAll_acts begun hcs
  exact ⟨used', acts, fun c hc hin => hc ((hsub c hin).resolve_right nofun)⟩

theorem chosenCalls_acts {weights} (nodup : children.Nodup) :
    ∀ x ∈ t.chosenCalls scene id weights children f,
      x.1 ∈ children ∧ ∃ used', t.Acts scene run id children f used' x.2 ∧ x.1 ∉ used' := by
  simp only [chosenCalls]
  split
  · exact nofun
  · next i _ =>
    intro x hx
    simp only [Option.mem_toList, Option.map_eq_some_iff] at hx
    obtain ⟨c, hc, rfl⟩ := hx
    obtain ⟨used', acts, hnew⟩ := @resetAll_acts_start _ t scene run id f children (children.eraseIdx i) fun c hc =>
      List.mem_of_mem_eraseIdx hc
    exact ⟨List.mem_of_getElem? hc, used', acts, hnew c (not_mem_eraseIdx nodup hc)⟩

end Acts

/-- A node calls its children only, on frames that its acts lead to, and a child that it has not touched before. -/
theorem calls_acts (nodup : s.children.Nodup) :
    ∀ x ∈ t.callsOf scene run id s f,
      x.1 ∈ s.children ∧ ∃ used, t.Acts scene run id s.children f used x.2 ∧ x.1 ∉ used := by
  have begun : t.Acts scene run id s.children f [] f := .start
  cases hk : s.kind with
  | sequence =>
      simp only [callsOf, hk]
      exact sequenceCalls_acts begun (fun c hc => ⟨List.mem_of_mem_drop hc, nofun⟩)
        (nodup.sublist (List.drop_sublist _ _))
  | prioritySelector =>
      simp only [callsOf, hk]
      generalize min ((f.selected scene id).getD 0) s.children.length = n
      obtain ⟨used, acts, hnew⟩ := @resetAll_acts_start _ t scene run id f s.children (s.children.take n) fun c hc =>
        List.mem_of_mem_take hc
      exact priorityCalls_acts acts (fun c hc => ⟨List.mem_of_mem_drop hc, hnew c (not_mem_take nodup hc)⟩)
        (nodup.sublist (List.drop_sublist _ _))
  | probabilitySelector weights =>
      simp only [callsOf, hk]
      exact chosenCalls_acts nodup
  | randomSelector =>
      have perm := (scene.tick.generator scene.entity (UInt64.ofNat id)).shuffle_perm s.children
      simp only [callsOf, hk]
      exact eachCalls_acts begun (fun c hc => ⟨perm.mem_iff.mp hc, nofun⟩) (perm.nodup_iff.mpr nodup)
  | parallel =>
      simp only [callsOf, hk]
      exact eachCalls_acts begun (fun c hc => ⟨hc, nofun⟩) nodup
  | invert | succeed | fail =>
      simp only [callsOf, hk]
      exact headCalls_acts
  | limit amount =>
      simp only [callsOf, hk]
      split
      · exact nofun
      · exact headCalls_acts
  | task task =>
      simp only [callsOf, hk]
      exact nofun

/-! ## Results of the calls -/

section Results

variable [Character χ] {children : List NodeId} {c : NodeId} (scene)

theorem Nested.steps_added (nested : t.Nested) (c : NodeId) (f : Frame χ) :
    (t.execute scene c f).2.steps = f.steps ++ added (t.execute scene) (c, f) ∧
      ∀ st ∈ added (t.execute scene) (c, f), st.node ∈ t.subtree c := by
  have within : t.Within scene c f (t.execute scene c f).2 := nested.within_execute c f
  obtain ⟨new, hsteps, hnew⟩ := within.steps
  rw [added_eq hsteps, hsteps]
  exact ⟨rfl, fun st hst => (hnew st hst).1⟩

/-- A call of a child gives one result among those of the children, and executes no other child. -/
theorem Nested.results_added (nested : t.Nested) (hs : t.slot? id = some s) (hc : c ∈ s.children) (f : Frame χ) :
    results s.children (added (t.execute scene) (c, f)) = [(c, (t.execute scene c f).1)] ∧
      tried s.children (added (t.execute scene) (c, f)) = [c] := by
  obtain ⟨new, hsteps, -, hresults, -⟩ := nested.results_execute scene hs hc f
  obtain ⟨sc, hsc⟩ := nested.exists_slot hs hc
  have once : t.Once scene c f (t.execute scene c f).2 := nested.once_execute hsc f
  have htried := once.tried nested hs hc
  rw [added_eq hsteps]
  rw [hsteps, tried_append, List.append_cancel_left_eq] at htried
  exact ⟨hresults, htried⟩

theorem Nested.results_flatMap_added (nested : t.Nested) (hs : t.slot? id = some s) {calls : List (Call χ)}
    (hcalls : ∀ x ∈ calls, x.1 ∈ s.children) :
    results s.children (calls.flatMap (added (t.execute scene))) =
        calls.map (fun x => (x.1, (t.execute scene x.1 x.2).1)) ∧
      tried s.children (calls.flatMap (added (t.execute scene))) = calls.map Prod.fst := by
  induction calls with
  | nil => exact ⟨rfl, rfl⟩
  | cons x xs ih =>
      obtain ⟨hx, hxs⟩ := List.forall_mem_cons.mp hcalls
      obtain ⟨hresults, htried⟩ := nested.results_added scene hs hx x.2
      obtain ⟨hresults', htried'⟩ := ih hxs
      rw [List.flatMap_cons, results_append, tried_append, List.map_cons, List.map_cons, hresults, htried, hresults',
        htried']
      exact ⟨rfl, rfl⟩

end Results

/-! ## Executions -/

variable [Character χ]

section

variable (t : BehaviorTree χ) (scene : Scene)

/-- What an execution of a node calls: nothing if its guard refuses it. -/
def callsIn (id : NodeId) (s : Slot χ) (f : Frame χ) : List (Call χ) :=
  if (judge scene id s f).1 then t.callsOf scene (t.execute scene) id s (judge scene id s f).2 else []

/-- The step of a leaf that calls its task on a frame. -/
def calling (id : NodeId) (f : Frame χ) : Step χ :=
  .called (taskContext scene id f) f.character (f.memory.getD id scene.entity).timer f.board

/-- The frame that an execution of a leaf calls the task on: none if its guard refuses it. -/
def taskIn (id : NodeId) (s : Slot χ) (f : Frame χ) : List (Frame χ) :=
  if (judge scene id s f).1 && s.kind.isLeaf then [(judge scene id s f).2] else []

/-- In the course of an execution of a node on a frame, a node is executed on a frame: that node itself, or one in
the course of a call. -/
inductive Executes : NodeId → Frame χ → NodeId → Frame χ → Prop where
  | self {id : NodeId} {f : Frame χ} : Executes id f id f
  | call {id c n : NodeId} {s : Slot χ} {f g h : Frame χ} : t.slot? id = some s → (c, g) ∈ t.callsIn scene id s f →
      Executes c g n h → Executes id f n h

end

theorem callsIn_acts (nodup : s.children.Nodup) :
    ∀ x ∈ t.callsIn scene id s f, x.1 ∈ s.children ∧
      ∃ used, t.Acts scene (t.execute scene) id s.children (judge scene id s f).2 used x.2 ∧ x.1 ∉ used := by
  intro x hx
  rw [callsIn] at hx
  split at hx
  · exact calls_acts nodup x hx
  · cases hx

/-- Between its guard and its record, an execution passes from call to call. -/
theorem Tolerates.attempt {R : Frame χ → Frame χ → Prop} (tolerates : t.Tolerates scene id s R)
    (leaf : ∀ task, s.kind = .task task → ∀ g, R g (runTask scene id task g).2) :
    Passes (t.execute scene) R (judge scene id s f).2 (t.callsIn scene id s f)
      (t.attempt scene (t.execute scene) id s f).2 := by
  simp only [BehaviorTree.attempt, callsIn]
  generalize (judge scene id s f).2 = g
  cases (judge scene id s f).1 with
  | false => exact tolerates.refl
  | true =>
      by_cases hk : ∃ task, s.kind = .task task
      · obtain ⟨task, hk⟩ := hk
        simp only [if_true, BehaviorTree.perform, callsOf, hk]
        exact leaf task hk g
      · exact tolerates.perform fun task hk' => hk ⟨task, hk'⟩

variable (scene)

/-- The steps of an execution: the answer of the guard, the call of the task or the calls of children, and the
result. -/
theorem Nested.steps_execute_calls (nested : t.Nested) (hs : t.slot? id = some s) (f : Frame χ) :
    (t.execute scene id f).2.steps = f.steps ++ (.began id (judge scene id s f).1 ::
      ((taskIn scene id s f).map (calling scene id) ++
        (t.callsIn scene id s f).flatMap (added (t.execute scene))) ++ [.ended id (t.execute scene id f).1]) := by
  simp only [nested.execute_of_slot hs, visit, attempt, callsIn, taskIn]
  cases hallowed : (judge scene id s f).1 with
  | false => simp [steps_judge, hallowed]
  | true =>
      have hsteps : (judge scene id s f).2.steps = f.steps ++ [.began id true] := by rw [steps_judge, hallowed]
      generalize (judge scene id s f).2 = g at hsteps
      by_cases hk : ∃ task, s.kind = .task task
      · obtain ⟨task, hk⟩ := hk
        simp [perform, callsOf, hk, NodeKind.isLeaf, steps_runTask, calling, hsteps]
      · have leaf : ∀ task, s.kind ≠ .task task := fun task hk' => hk ⟨task, hk'⟩
        have hcalls : Passes _ _ g (t.callsOf scene (t.execute scene) id s g) _ := tolerates_steps.perform leaf
        simp [hcalls.steps fun x _ => (nested.steps_added scene x.1 x.2).1, hsteps, NodeKind.isLeaf_of_ne_task leaf]

variable {scene} in
/-- A node is executed on what was remembered about it and below it before the whole execution. -/
theorem Executes.agree (nested : t.Nested) {k : Nat} (h : t.Executes scene k f id g) :
    ∀ n ∈ t.subtree id, n ∈ t.subtree k ∧ g.memory.Agree f.memory n scene.entity := by
  induction h with
  | self => exact fun n hn => ⟨hn, .refl⟩
  | @call k c _ s f g _ hs hcall _ ih =>
      intro n hn
      obtain ⟨hin, hagree⟩ := ih n hn
      obtain ⟨hc, used, acts, hnew⟩ := callsIn_acts (nested.nodup hs) _ hcall
      have within : ∀ c ∈ s.children, ∀ g, t.Within scene c g (t.execute scene c g).2 :=
        fun c _ g => nested.within_execute c g
      have hfresh := (acts.within nested hs within).2 c hc hnew n hin
      exact ⟨(nested.below hs hc hin).2, hagree.trans (hfresh.trans agree_judge)⟩

/-- The guards that an execution evaluates are those of the nodes that it executes, on the frames on which it
does. -/
theorem Nested.began_iff_executes (nested : t.Nested) {k : Nat} {sk : Slot χ} (hsk : t.slot? k = some sk) {n : NodeId}
    {b : Bool} (f : Frame χ) :
    .began n b ∈ added (t.execute scene) (k, f) ↔
      ∃ s g, t.slot? n = some s ∧ t.Executes scene k f n g ∧ (judge scene n s g).1 = b := by
  refine nested.induction (fun k => ∀ f, .began n b ∈ added (t.execute scene) (k, f) ↔
    ∃ s g, t.slot? n = some s ∧ t.Executes scene k f n g ∧ (judge scene n s g).1 = b) ?_ hsk f
  intro k s hs ih f
  have hsteps := nested.steps_execute_calls scene hs f
  have hnot : .began n b ∉ (taskIn scene k s f).map (calling scene k) := fun hst => by
    obtain ⟨_, _, heq⟩ := List.mem_map.mp hst
    cases heq
  have hmem : .began n b ∈ added (t.execute scene) (k, f) ↔ (n = k ∧ b = (judge scene k s f).1) ∨
      ∃ x ∈ t.callsIn scene k s f, .began n b ∈ added (t.execute scene) x := by
    rw [added_eq hsteps]
    simp [hnot]
  rw [hmem]
  constructor
  · rintro (⟨rfl, rfl⟩ | ⟨⟨c, g⟩, hcall, hst⟩)
    · exact ⟨s, f, hs, .self, rfl⟩
    · obtain ⟨sn, h, hsn, hexecutes, hb⟩ := (ih c (callsIn_acts (nested.nodup hs) _ hcall).1 g).mp hst
      exact ⟨sn, h, hsn, .call hs hcall hexecutes, hb⟩
  · rintro ⟨sn, h, hsn, hexecutes, hb⟩
    cases hexecutes with
    | self =>
        obtain rfl := Option.some.inj (hs.symm.trans hsn)
        exact .inl ⟨rfl, hb.symm⟩
    | @call _ c _ s' _ g _ hs' hcall hexecutes =>
        obtain rfl := Option.some.inj (hs.symm.trans hs')
        exact .inr ⟨_, hcall, (ih c (callsIn_acts (nested.nodup hs) _ hcall).1 g).mpr ⟨sn, h, hsn, hexecutes, hb⟩⟩

/-- What an execution tells of its node and of the children. -/
structure Recounts (t : BehaviorTree χ) (scene : Scene) (id : NodeId) (s : Slot χ) (f : Frame χ)
    (steps : List (Step χ)) : Prop where
  visited : Visited id (judge scene id s f).1 (t.execute scene id f).1 steps
  self : results [id] steps = [(id, (t.execute scene id f).1)]
  tried : tried s.children steps = (t.callsIn scene id s f).map Prod.fst
  results : results s.children steps = (t.callsIn scene id s f).map fun x => (x.1, (t.execute scene x.1 x.2).1)

variable {scene} in
/-- What happens elsewhere before and after an execution does not matter. -/
theorem Recounts.surround (nested : t.Nested) (hs : t.slot? id = some s) {before steps after : List (Step χ)}
    (h : t.Recounts scene id s f steps) (hbefore : ∀ st ∈ before, st.node ∉ t.subtree id)
    (hafter : ∀ st ∈ after, st.node ∉ t.subtree id) : t.Recounts scene id s f (before ++ steps ++ after) := by
  have hself := nested.mem_self hs
  have hchild : ∀ c ∈ s.children, c ∈ t.subtree id := fun c hc =>
    (nested.below hs hc (nested.self_mem_child hs hc)).2
  have hresults {nodes : List NodeId} (hin : ∀ n ∈ nodes, n ∈ t.subtree id) :
      Step.results nodes (before ++ steps ++ after) = Step.results nodes steps := by
    rw [results_append, results_append, results_eq_nil fun st hst hc => hbefore st hst (hin _ hc),
      results_eq_nil fun st hst hc => hafter st hst (hin _ hc), List.nil_append, List.append_nil]
  have hnone {other : List (Step χ)} (hother : ∀ st ∈ other, st.node ∉ t.subtree id) :
      Step.tried s.children other = [] :=
    tried_eq_nil fun n hn hc => forall_executed (P := (· ∉ t.subtree id)) hother n hn (hchild n hc)
  refine ⟨h.visited.congr fun st hst => ?_, ?_, ?_, (hresults hchild).trans h.results⟩
  · have hin : st.node ∈ t.subtree id := hst ▸ hself
    simp only [List.mem_append]
    exact ⟨fun h => (h.resolve_right fun h => hafter _ h hin).resolve_left fun h => hbefore _ h hin,
      fun h => .inl (.inr h)⟩
  · exact (hresults (List.forall_mem_singleton.mpr hself)).trans h.self
  · rw [tried_append, tried_append, hnone hbefore, hnone hafter, List.nil_append, List.append_nil, h.tried]

theorem Nested.recounts_execute (nested : t.Nested) (hs : t.slot? id = some s) (f : Frame χ) :
    t.Recounts scene id s f (added (t.execute scene) (id, f)) := by
  have hsteps := nested.steps_execute_calls scene hs f
  have hcalls : ∀ x ∈ t.callsIn scene id s f, x.1 ∈ s.children := fun x hx =>
    (callsIn_acts (nested.nodup hs) x hx).1
  have hself := nested.not_mem_children hs
  have hbelow : ∀ st ∈ (t.callsIn scene id s f).flatMap (added (t.execute scene)), st.node ≠ id := by
    rintro st hst rfl
    obtain ⟨⟨c, g⟩, hx, hst⟩ := List.mem_flatMap.mp hst
    exact nested.self_not_mem_child hs (hcalls _ hx) ((nested.steps_added scene c g).2 st hst)
  obtain ⟨hresults, htried⟩ := nested.results_flatMap_added scene hs hcalls
  rw [added_eq hsteps]
  generalize (t.callsIn scene id s f).flatMap (added (t.execute scene)) = below at hbelow hresults htried
  -- the call of a task neither begins nor ends any node
  have hquiet : (∀ n b, .began n b ∉ (taskIn scene id s f).map (calling scene id)) ∧
      ∀ n r, .ended n r ∉ (taskIn scene id s f).map (calling scene id) := by
    refine ⟨fun n b hst => ?_, fun n r hst => ?_⟩ <;>
      · obtain ⟨_, _, heq⟩ := List.mem_map.mp hst
        cases heq
  generalize (taskIn scene id s f).map (calling scene id) = own at hquiet
  have hnone (nodes : List NodeId) : Step.results nodes own = [] :=
    List.eq_nil_iff_forall_not_mem.mpr fun x hx => hquiet.2 x.1 x.2 (mem_results.mp hx).2
  have hfirst (nodes : List NodeId) : Step.results nodes (.began id (judge scene id s f).1 :: (own ++ below)) =
      Step.results nodes below := by
    rw [← List.nil_append (Step.results nodes below), ← hnone nodes, ← results_append]
    rfl
  refine ⟨⟨fun b => ?_, fun r => ?_⟩, ?_, ?_, ?_⟩
  · have hnot : .began id b ∉ below := fun hst => hbelow _ hst rfl
    simp [hquiet.1, hnot]
  · have hnot : .ended id r ∉ below := fun hst => hbelow _ hst rfl
    simp [hquiet.2, hnot]
  · have hnil : Step.results [id] below = [] :=
      results_eq_nil fun st hst hin => hbelow st hst (List.mem_singleton.mp hin)
    rw [results_append, hfirst, hnil]
    simp [Step.results, ended?]
  · have hown' : executed own = [] := List.eq_nil_iff_forall_not_mem.mpr fun n hn => by
      obtain ⟨b, hst⟩ := mem_executed.mp hn
      exact hquiet.1 n b hst
    rw [← htried]
    simp [Step.tried, hown', hself]
  · rw [results_append, hfirst, hresults]
    simp [Step.results, ended?, hself]

end BehaviorTree

end Behavior
