import Behavior.Proofs.Random.Below
import Behavior.Proofs.Random.Shuffle
import Behavior.Proofs.Random.Weighted
import Behavior.Proofs.Tree.Execution
/-!
# Indices in bounds

An interpreter that stops wherever it is about to use an index that is out of range: the index of a child that
was remembered or chosen, the ends of the slices on both sides of a selector's scan, the id of a child or of a
subtree in the arena, the positions that a shuffle exchanges. In a tree made from a hierarchy it never stops,
whatever was remembered before (`BehaviorTree.checked_ofNode`).
-/

namespace Behavior

variable {χ : Type}

namespace Checked

/-! ## Slices and exchanges -/

section

variable {α : Type}

/-- The elements before an index that may be the end. -/
def before? (i : Nat) (xs : List α) : Option (List α) := if i ≤ xs.length then some (xs.take i) else none

/-- The elements from an index on that may be the end. -/
def from? (i : Nat) (xs : List α) : Option (List α) := if i ≤ xs.length then some (xs.drop i) else none

def swap? (i j : Nat) (items : Array α) : Option (Array α) :=
  if i < items.size ∧ j < items.size then some (items.swapIfInBounds i j) else none

def exchange? : List Nat → Array α → Option (Array α)
  | [], items => some items
  | j :: js, items => do exchange? js (← swap? (js.length + 1) j items)

def shuffle? (items : List α) (g : Generator) : Option (List α × Generator) := do
  let (js, g) := g.indices (items.length - 1)
  let items ← exchange? js items.toArray
  some (items.toList, g)

theorem before?_eq {i : Nat} {xs : List α} (h : i ≤ xs.length) : before? i xs = some (xs.take i) := if_pos h

theorem from?_eq {i : Nat} {xs : List α} (h : i ≤ xs.length) : from? i xs = some (xs.drop i) := if_pos h

theorem exchange?_indices {n : Nat} {g : Generator} {items : Array α} (h : n < items.size) :
    exchange? (g.indices n).1 items = some (exchange (g.indices n).1 items) := by
  induction n generalizing g items with
  | zero => rfl
  | succ n ih =>
      have hj := g.toNat_below_le (n + 1)
      have hswap : ∀ j, j ≤ n + 1 → swap? (n + 1) j items = some (items.swapIfInBounds (n + 1) j) :=
        fun j hj => if_pos ⟨h, by omega⟩
      simp only [Generator.indices, exchange?, exchange, Generator.length_indices]
      rw [hswap _ hj]
      exact ih (by simpa using Nat.lt_of_succ_lt h)

/-- A shuffle exchanges positions of the list only. -/
theorem shuffle?_eq (items : List α) (g : Generator) : shuffle? items g = some (g.shuffle items) := by
  cases items with
  | nil => rfl
  | cons a as =>
      have h : exchange? (g.indices as.length).1 (a :: as).toArray = some _ := exchange?_indices (by simp)
      simp only [shuffle?, Generator.shuffle, List.length_cons, Nat.add_sub_cancel, h]
      rfl

end

/-! ## Nodes -/

/-- Executes a node on a frame, unless an index is out of range. -/
abbrev Runner (χ : Type) := NodeId → Frame χ → Option (Status × Frame χ)

variable (t : BehaviorTree χ) (scene : Scene)

/-- The ids of a node and its descendants, as a slice of the arena. -/
def subtree? (id : NodeId) : Option (List NodeId) := do
  let s ← t.slot? id
  if s.stop ≤ t.size then some (t.subtree id) else none

def reset? (id : NodeId) (f : Frame χ) : Option (Frame χ) :=
  (subtree? t id).map fun _ => t.reset scene id f

def resetBelow? (id : NodeId) (f : Frame χ) : Option (Frame χ) :=
  (subtree? t id).map fun _ => t.resetBelow scene id f

def resetAll? (ids : List NodeId) (f : Frame χ) : Option (Frame χ) := ids.foldlM (fun f id => reset? t scene id f) f

variable (run : Runner χ)

def sequenceFrom? (id : NodeId) : (i : Nat) → List NodeId → (last : Status) → Frame χ → Option (Status × Frame χ)
  | _, [], last, f => do some (last, ← resetBelow? t scene id f)
  | i, c :: cs, _, f => do
    let (s, f) ← run c f
    match s with
    | .running => some (.running, f.setSelected scene id (some i))
    | .cannotExecute | .failed => do some (s, ← resetBelow? t scene id f)
    | .exception => some (.exception, f)
    | .unknown | .finished => sequenceFrom? id (i + 1) cs s f

def sequence? (id : NodeId) (children : List NodeId) (f : Frame χ) : Option (Status × Frame χ) :=
  let start := (f.selected scene id).getD 0
  sequenceFrom? t scene run id start (children.drop start) .finished f

/-- The second result is the index past the last child that was tried. -/
def priorityFrom? (id : NodeId) : (i : Nat) → List NodeId → Frame χ → Option (Status × Nat × Frame χ)
  | i, [], f => some (.finished, i, f)
  | i, c :: cs, f => do
    let (s, f) ← run c f
    match s with
    | .running => some (.running, i + 1, f.setSelected scene id (some i))
    | .cannotExecute | .failed => do
      let f ← reset? t scene c f
      priorityFrom? id (i + 1) cs (f.setSelected scene id none)
    | .unknown | .finished | .exception => do
      let f ← reset? t scene c (f.setSelected scene id none)
      some (s, i + 1, f)

def prioritySelector? (id : NodeId) (children : List NodeId) (f : Frame χ) : Option (Status × Frame χ) := do
  let start := min ((f.selected scene id).getD 0) children.length
  let f ← resetAll? t scene (← before? start children) f
  let (s, visited, f) ← priorityFrom? t scene run id start (children.drop start) f
  let f ← resetAll? t scene (← from? visited children) f
  some (s, f)

def runEach? : List NodeId → (overall : Status) → Frame χ → Option (Status × Frame χ)
  | [], overall, f => some (overall, f)
  | c :: cs, overall, f => do
    let (s, f) ← run c f
    if s.isRunning then runEach? cs overall f
    else do
      let f ← reset? t scene c f
      runEach? cs (if s.isFailure then s else overall) f

def randomSelector? (id : NodeId) (children : List NodeId) (f : Frame χ) : Option (Status × Frame χ) := do
  let (order, _) ← shuffle? children (scene.tick.generator scene.entity (UInt64.ofNat id))
  runEach? t scene run order .finished f

/-- The remembered child if it was left running; only an index that was compared with the number of children
is used. -/
def resumable? (id : NodeId) (children : List NodeId) (f : Frame χ) : Option (Option Nat) :=
  match f.selected scene id with
  | none => some none
  | some i =>
    if i < children.length then do
      let c ← children[i]?
      some (if (f.status scene c).isRunning then some i else none)
    else some none

def probabilitySelector? (id : NodeId) (weights : List Float32) (children : List NodeId) (f : Frame χ) :
    Option (Status × Frame χ) := do
  let resumed ← resumable? scene id children f
  match resumed.or (BehaviorTree.choice? scene id weights children) with
  | none => some (.failed, f)
  | some chosen => do
    let f ← resetAll? t scene (children.eraseIdx chosen) f
    let c ← children[chosen]?
    let (s, f) ← run c f
    if s.isRunning then some (s, f.setSelected scene id (some chosen))
    else do some (s, ← reset? t scene c (f.setSelected scene id none))

def parallelFrom? : List NodeId → (running : Bool) → Frame χ → Option (Bool × Frame χ)
  | [], running, f => some (running, f)
  | c :: cs, running, f => do
    let (s, f) ← run c f
    if s.isRunning then parallelFrom? cs true f
    else do parallelFrom? cs running (← reset? t scene c f)

def parallel? (id : NodeId) (children : List NodeId) (f : Frame χ) : Option (Status × Frame χ) := do
  match ← parallelFrom? t scene run children false f with
  | (true, f) => some (.running, f)
  | (false, f) => do some (.finished, ← resetBelow? t scene id f)

def decorate? (map : Status → Status) (children : List NodeId) (f : Frame χ) : Option (Status × Frame χ) :=
  match children.head? with
  | some c => do
    let (s, f) ← run c f
    some (map s, f)
  | none => some (.failed, f)

def limit? (id : NodeId) (amount : UInt32) (children : List NodeId) (f : Frame χ) : Option (Status × Frame χ) :=
  match children.head? with
  | none => some (.failed, f)
  | some c =>
    if amount ≤ f.memory.completions id scene.entity then some (.failed, f)
    else do
      let (s, f) ← run c f
      some (s, if s.isRunning then f else f.complete scene id)

def perform? (id : NodeId) (f : Frame χ) : Option (Status × Frame χ) := do
  let s ← t.slot? id
  match s.kind with
  | .sequence => sequence? t scene run id s.children f
  | .prioritySelector => prioritySelector? t scene run id s.children f
  | .probabilitySelector weights => probabilitySelector? t scene run id weights s.children f
  | .randomSelector => randomSelector? t scene run id s.children f
  | .parallel => parallel? t scene run id s.children f
  | .invert => decorate? run BehaviorTree.inverted s.children f
  | .succeed => decorate? run (BehaviorTree.settledAs .finished) s.children f
  | .fail => decorate? run (BehaviorTree.settledAs .failed) s.children f
  | .limit amount => limit? scene run id amount s.children f
  | .task task => some (BehaviorTree.runTask scene id task f)

variable [Character χ]

def attempt? (id : NodeId) (s : Slot χ) (f : Frame χ) : Option (Status × Frame χ) :=
  let (allowed, f) := BehaviorTree.judge scene id s f
  if allowed then perform? t scene run id f else some (.cannotExecute, f)

def visit? (id : NodeId) (s : Slot χ) (f : Frame χ) : Option (Status × Frame χ) := do
  let (status, g) ← attempt? t scene run id s f
  some (status, (g.record scene id (f.status scene id) status).note (.ended id status))

/-- Stops at an id past the end of the arena, and where there are more levels than the bound. -/
def executeTo? : (depth : Nat) → Runner χ
  | 0, _, _ => none
  | depth + 1, id, f => do visit? t scene (executeTo? depth) id (← t.slot? id) f

/-- Only the id that is given from outside may be past the end of the arena. -/
def execute? (id : NodeId) (f : Frame χ) : Option (Status × Frame χ) :=
  match t.slot? id with
  | none => some (.unknown, f)
  | some _ => executeTo? t scene (t.size - id) id f

omit [Character χ]

def resetState? (id : NodeId) (e : EntityId) (m : Memory) : Option Memory :=
  match t.slot? id with
  | none => some m
  | some _ => (subtree? t id).map fun _ => t.resetState id e m

def snapshotTo? (m : Memory) (e : EntityId) : (depth : Nat) → NodeId → Option NodeSnapshot
  | 0, _ => none
  | depth + 1, id => do
    let s ← t.slot? id
    let children ← s.children.mapM (snapshotTo? m e depth)
    some
      { id := UInt32.ofNat id, name := s.label.text, condition := s.condition.text, status := m.status id e
        children }

def snapshot? (m : Memory) (e : EntityId) : Option NodeSnapshot := snapshotTo? t m e t.size NodeId.root

/-! ## In a nested arena -/

variable {t : BehaviorTree χ} {scene : Scene} {id : Nat} {s : Slot χ} {e : EntityId} {m : Memory}

theorem exists_slot_of_mem (nested : t.Nested) {k : Nat} (hs : t.slot? id = some s) (hk : k ∈ t.subtree id) :
    ∃ s', t.slot? k = some s' := by
  refine nested.induction (fun id => k ∈ t.subtree id → ∃ s', t.slot? k = some s') ?_ hs hk
  intro id s hs ih hk
  rcases nested.cover hs hk with rfl | ⟨c, hc, hk⟩
  · exact ⟨s, hs⟩
  · exact ih c hc hk

theorem subtree?_eq (nested : t.Nested) (hs : t.slot? id = some s) : subtree? t id = some (t.subtree id) := by
  obtain ⟨stop, hstop⟩ : ∃ stop : Nat, s.stop = stop := ⟨s.stop, rfl⟩
  have hrange : t.subtree id = List.range' id (stop - id) := by simp [BehaviorTree.subtree, hs, hstop]
  have hself := nested.mem_self hs
  rw [hrange, List.mem_range'_1] at hself
  -- the last id of the range is that of a node
  have hlast : stop - 1 ∈ t.subtree id := by rw [hrange, List.mem_range'_1]; omega
  obtain ⟨s', hs'⟩ := exists_slot_of_mem nested hs hlast
  have hlt := BehaviorTree.lt_size hs'
  have hle : stop ≤ t.size := by omega
  simp [subtree?, hs, hstop, hle]

theorem resetBelow?_eq (nested : t.Nested) (hs : t.slot? id = some s) (f : Frame χ) :
    resetBelow? t scene id f = some (t.resetBelow scene id f) := by
  simp [resetBelow?, subtree?_eq nested hs]

theorem resetState?_eq (nested : t.Nested) : resetState? t id e m = some (t.resetState id e m) := by
  cases hs : t.slot? id with
  | none => simp [resetState?, hs, BehaviorTree.resetState, BehaviorTree.subtree]
  | some s => simp [resetState?, hs, subtree?_eq nested hs]

/-- These nodes stand in the arena, and running any of them gives what the other runner gives. -/
structure Follows (t : BehaviorTree χ) (run : Runner χ) (total : Behavior.Runner χ) (cs : List NodeId) : Prop where
  slot : ∀ c ∈ cs, ∃ s, t.slot? c = some s
  eq : ∀ c ∈ cs, ∀ f, run c f = some (total c f)

variable {run : Runner χ} {total : Behavior.Runner χ} {cs : List NodeId} {f : Frame χ}

theorem Follows.mono (h : Follows t run total cs) {ds : List NodeId} (hds : ∀ d ∈ ds, d ∈ cs) :
    Follows t run total ds :=
  ⟨fun d hd => h.slot d (hds d hd), fun d hd => h.eq d (hds d hd)⟩

theorem Follows.tail {c : NodeId} (h : Follows t run total (c :: cs)) : Follows t run total cs :=
  h.mono fun _ hd => List.mem_cons_of_mem c hd

theorem resumable?_eq : resumable? scene id cs f = some (BehaviorTree.resumable? scene id cs f) := by
  unfold resumable? BehaviorTree.resumable?
  cases f.selected scene id with
  | none => rfl
  | some i =>
      by_cases hi : i < cs.length
      · simp only [hi, if_true, List.getElem?_eq_getElem, Option.bind_eq_bind, Option.bind_some, Option.filter_some]
      · simp [hi, Option.filter_some]

/-- A probability selector resumes at one of its children, or chooses one of them. -/
theorem lt_length_of_chosen {weights : List Float32} {i : Nat}
    (h : (BehaviorTree.resumable? scene id cs f).or (BehaviorTree.choice? scene id weights cs) = some i) :
    i < cs.length := by
  rcases Option.or_eq_some_iff.mp h with hresumed | ⟨-, hchoice⟩
  · obtain ⟨-, hi⟩ := Option.filter_eq_some_iff.mp hresumed
    refine Nat.lt_of_not_le fun hge => ?_
    simp [List.getElem?_eq_none hge] at hi
  · simpa [BehaviorTree.weightsFor] using Generator.lt_of_chooseWeighted hchoice

section Children

variable (nested : t.Nested) (h : Follows t run total cs)

include nested h

theorem reset?_eq {c : NodeId} (hc : c ∈ cs) (f : Frame χ) : reset? t scene c f = some (t.reset scene c f) := by
  obtain ⟨s, hs⟩ := h.slot c hc
  simp [reset?, subtree?_eq nested hs]

theorem resetAll?_eq : resetAll? t scene cs f = some (t.resetAll scene cs f) := by
  induction cs generalizing f with
  | nil => rfl
  | cons c cs ih =>
      have hc : reset? t scene c f = some _ := reset?_eq nested h (by simp) f
      simp only [resetAll?, List.foldlM_cons, hc]
      exact ih h.tail

theorem sequenceFrom?_eq {i : Nat} {last : Status} (hs : t.slot? id = some s) :
    sequenceFrom? t scene run id i cs last f = some (t.sequenceFrom scene total id i cs last f) := by
  have hbelow (f : Frame χ) : resetBelow? t scene id f = some _ := resetBelow?_eq nested hs f
  induction cs generalizing i last f with
  | nil => simp [sequenceFrom?, BehaviorTree.sequenceFrom, hbelow]
  | cons c cs ih =>
      simp only [sequenceFrom?, BehaviorTree.sequenceFrom, h.eq c (by simp), Option.bind_eq_bind, Option.bind_some]
      rcases total c f with ⟨r, g⟩
      cases r with
      | running | exception => rfl
      | cannotExecute | failed => simp [hbelow]
      | unknown | finished => exact ih h.tail

theorem priorityFrom?_eq (scene : Scene) (id : Nat) {i n : Nat} (hlength : i + cs.length = n) :
    ∃ visited, priorityFrom? t scene run id i cs f =
        some ((t.priorityFrom scene total id i cs f).1, visited, (t.priorityFrom scene total id i cs f).2.2) ∧
      i ≤ visited ∧ visited ≤ n ∧ (t.priorityFrom scene total id i cs f).2.1 = cs.drop (visited - i) := by
  induction cs generalizing i f with
  | nil => exact ⟨i, rfl, Nat.le_refl i, by omega, by simp [BehaviorTree.priorityFrom]⟩
  | cons c cs ih =>
      have hreset (f : Frame χ) : reset? t scene c f = some _ := reset?_eq nested h List.mem_cons_self f
      rw [List.length_cons] at hlength
      simp only [priorityFrom?, BehaviorTree.priorityFrom, h.eq c (by simp), Option.bind_eq_bind, Option.bind_some]
      rcases total c f with ⟨r, g⟩
      cases r with
      | running => exact ⟨i + 1, rfl, by omega, by omega, by simp⟩
      | cannotExecute | failed =>
          obtain ⟨visited, heq, hle, hlt, hrest⟩ :=
            ih (f := (t.reset scene c g).setSelected scene id none) h.tail (i := i + 1) (by omega)
          refine ⟨visited, by simp [hreset, heq], by omega, hlt, ?_⟩
          obtain ⟨k, hk⟩ : ∃ k, visited - i = k + 1 := ⟨visited - (i + 1), by omega⟩
          simp only [hrest, hk, List.drop_succ_cons]
          congr 1
          omega
      | unknown | finished | exception => exact ⟨i + 1, by simp [hreset], by omega, by omega, by simp⟩

theorem prioritySelector?_eq :
    prioritySelector? t scene run id cs f = some (t.prioritySelector scene total id cs f) := by
  have hle : min ((f.selected scene id).getD 0) cs.length ≤ cs.length := Nat.min_le_right _ _
  simp only [prioritySelector?, BehaviorTree.prioritySelector]
  generalize min ((f.selected scene id).getD 0) cs.length = start at hle
  have hbefore : resetAll? t scene (cs.take start) f = some _ :=
    resetAll?_eq nested (h.mono fun c hc => List.mem_of_mem_take hc)
  have hdrop : Follows t run total (cs.drop start) := h.mono fun c hc => List.mem_of_mem_drop hc
  obtain ⟨visited, heq, hstart, hvisited, hrest⟩ :=
    priorityFrom?_eq (f := t.resetAll scene (cs.take start) f) nested hdrop scene id (i := start) rfl
  have hvisited : visited ≤ cs.length := by rw [List.length_drop] at hvisited; omega
  rw [List.drop_drop, Nat.add_sub_cancel' hstart] at hrest
  have hafter (f : Frame χ) : resetAll? t scene (cs.drop visited) f = some _ :=
    resetAll?_eq nested (h.mono fun c hc => List.mem_of_mem_drop hc)
  simp [before?_eq hle, hbefore, heq, from?_eq hvisited, hafter, hrest]

theorem runEach?_eq {overall : Status} :
    runEach? t scene run cs overall f = some (t.runEach scene total cs overall f) := by
  induction cs generalizing overall f with
  | nil => rfl
  | cons c cs ih =>
      have hreset (f : Frame χ) : reset? t scene c f = some _ := reset?_eq nested h List.mem_cons_self f
      simp only [runEach?, BehaviorTree.runEach, h.eq c (by simp), Option.bind_eq_bind, Option.bind_some, hreset,
        ih h.tail]
      split <;> rfl

theorem randomSelector?_eq :
    randomSelector? t scene run id cs f = some (t.randomSelector scene total id cs f) := by
  have hperm := (scene.tick.generator scene.entity (UInt64.ofNat id)).shuffle_perm cs
  simp only [randomSelector?, BehaviorTree.randomSelector, shuffle?_eq, Option.bind_eq_bind, Option.bind_some]
  exact runEach?_eq nested (h.mono fun c hc => hperm.mem_iff.mp hc)

theorem parallelFrom?_eq {running : Bool} :
    parallelFrom? t scene run cs running f = some (t.parallelFrom scene total cs running f) := by
  induction cs generalizing running f with
  | nil => rfl
  | cons c cs ih =>
      have hreset (f : Frame χ) : reset? t scene c f = some _ := reset?_eq nested h List.mem_cons_self f
      simp only [parallelFrom?, BehaviorTree.parallelFrom, h.eq c (by simp), Option.bind_eq_bind, Option.bind_some,
        hreset, ih h.tail]
      split <;> rfl

theorem parallel?_eq (hs : t.slot? id = some s) :
    parallel? t scene run id cs f = some (t.parallel scene total id cs f) := by
  simp only [parallel?, BehaviorTree.parallel, parallelFrom?_eq nested h, Option.bind_eq_bind, Option.bind_some]
  rcases t.parallelFrom scene total cs false f with ⟨running, g⟩
  cases running with
  | true => rfl
  | false => simp [resetBelow?_eq nested hs]

theorem probabilitySelector?_eq {weights : List Float32} :
    probabilitySelector? t scene run id weights cs f = some (t.probabilitySelector scene total id weights cs f) := by
  have hlt (i : Nat) (hi : (BehaviorTree.resumable? scene id cs f).or (BehaviorTree.choice? scene id weights cs) =
      some i) : i < cs.length := lt_length_of_chosen hi
  simp only [probabilitySelector?, BehaviorTree.probabilitySelector, resumable?_eq, Option.bind_eq_bind,
    Option.bind_some]
  generalize (BehaviorTree.resumable? scene id cs f).or (BehaviorTree.choice? scene id weights cs) = choice at hlt
  cases choice with
  | none => rfl
  | some chosen =>
      have hothers : resetAll? t scene (cs.eraseIdx chosen) f = some _ :=
        resetAll?_eq nested (h.mono fun c hc => List.mem_of_mem_eraseIdx hc)
      have hchosen := hlt chosen rfl
      have hmem : cs[chosen] ∈ cs := List.getElem_mem _
      simp only [hothers, List.getElem?_eq_getElem hchosen, Option.bind_some, h.eq _ hmem,
        reset?_eq nested h hmem]
      generalize total _ _ = r
      cases r.1.isRunning <;> rfl

omit nested

theorem decorate?_eq {map : Status → Status} :
    decorate? run map cs f = some (BehaviorTree.decorate total map cs f) := by
  cases cs with
  | nil => rfl
  | cons c cs => simp [decorate?, BehaviorTree.decorate, h.eq c]

theorem limit?_eq {amount : UInt32} :
    limit? scene run id amount cs f = some (BehaviorTree.limit scene total id amount cs f) := by
  cases cs with
  | nil => rfl
  | cons c cs =>
      simp only [limit?, BehaviorTree.limit, List.head?_cons]
      split
      · rfl
      · simp [h.eq c]

end Children

theorem perform?_eq (nested : t.Nested) (hs : t.slot? id = some s) (h : Follows t run total s.children) :
    perform? t scene run id f = some (t.perform scene total id s f) := by
  simp only [perform?, hs, Option.bind_eq_bind, Option.bind_some, BehaviorTree.perform]
  cases s.kind with
  | sequence => exact sequenceFrom?_eq nested (h.mono fun c hc => List.mem_of_mem_drop hc) hs
  | prioritySelector => exact prioritySelector?_eq nested h
  | probabilitySelector weights => exact probabilitySelector?_eq nested h
  | randomSelector => exact randomSelector?_eq nested h
  | parallel => exact parallel?_eq nested h hs
  | invert | succeed | fail => exact decorate?_eq h
  | limit amount => exact limit?_eq h
  | task task => rfl

variable [Character χ]

theorem visit?_eq (nested : t.Nested) (hs : t.slot? id = some s) (h : Follows t run total s.children) :
    visit? t scene run id s f = some (t.visit scene total id s f) := by
  simp only [visit?, BehaviorTree.visit, attempt?, BehaviorTree.attempt]
  cases (BehaviorTree.judge scene id s f).1 with
  | false => rfl
  | true => simp [perform?_eq nested hs h]

theorem executeTo?_eq (nested : t.Nested) {depth : Nat} (hs : t.slot? id = some s) (hdepth : t.size - id ≤ depth) :
    executeTo? t scene depth id f = some (t.executeTo scene depth id f) := by
  induction depth generalizing id s f with
  | zero => have := BehaviorTree.lt_size hs; omega
  | succ depth ih =>
      have hchildren : Follows t (executeTo? t scene depth) (t.executeTo scene depth) s.children := by
        refine ⟨fun c hc => nested.exists_slot hs hc, fun c hc f => ?_⟩
        obtain ⟨s', hs'⟩ := nested.exists_slot hs hc
        have := (nested.below hs hc (nested.mem_self hs')).1
        exact ih hs' (by omega)
      simp [executeTo?, BehaviorTree.executeTo, hs, visit?_eq nested hs hchildren]

theorem execute?_eq (nested : t.Nested) : execute? t scene id f = some (t.execute scene id f) := by
  cases hs : t.slot? id with
  | none => simp [execute?, hs, BehaviorTree.execute_of_none hs]
  | some s =>
      have heq : executeTo? t scene (t.size - id) id f = some (t.execute scene id f) :=
        executeTo?_eq nested hs (Nat.le_refl _)
      simpa [execute?, hs] using heq

omit [Character χ]

theorem snapshotTo?_eq (nested : t.Nested) {depth : Nat} (hs : t.slot? id = some s) (hdepth : t.size - id ≤ depth) :
    snapshotTo? t m e depth id = some (t.snapshotTo m e depth id) := by
  induction depth generalizing id s with
  | zero => have := BehaviorTree.lt_size hs; omega
  | succ depth ih =>
      have hchildren : ∀ c ∈ s.children, snapshotTo? t m e depth c = some (t.snapshotTo m e depth c) := by
        intro c hc
        obtain ⟨s', hs'⟩ := nested.exists_slot hs hc
        have := (nested.below hs hc (nested.mem_self hs')).1
        exact ih hs' (by omega)
      have hmap : s.children.mapM (snapshotTo? t m e depth) = some (s.children.map (t.snapshotTo m e depth)) := by
        generalize s.children = cs at hchildren
        induction cs with
        | nil => rfl
        | cons c cs ih =>
            have htail := ih fun c' hc' => hchildren c' (by simp [hc'])
            simp [hchildren c, htail]
      simp [snapshotTo?, BehaviorTree.snapshotTo, hs, hmap]

end Checked

namespace BehaviorTree

open Checked

variable [Character χ]

/-- In a tree made from a hierarchy no index is ever out of range: whatever is remembered and whichever id is
given, executing a node, forgetting it and taking a snapshot never stop at one, nor does any shuffle. -/
theorem checked_ofNode (name : String) (root : TreeNode χ) :
    (∀ scene id f, execute? (ofNode name root) scene id f = some ((ofNode name root).execute scene id f)) ∧
      (∀ id e m, resetState? (ofNode name root) id e m = some ((ofNode name root).resetState id e m)) ∧
      (∀ e m, snapshot? (ofNode name root) m e = some ((ofNode name root).snapshot m e)) ∧
      ∀ (items : List EntityId) (g : Generator), shuffle? items g = some (g.shuffle items) := by
  have nested := nested_ofNode name root
  refine ⟨fun scene id f => execute?_eq nested, fun id e m => resetState?_eq nested, fun e m => ?_, shuffle?_eq⟩
  exact snapshotTo?_eq nested (holds_ofNode name root).slot (Nat.sub_le _ _)

/-- An arena in which a child's id is past the end stops it. -/
example (scene : Scene) : execute? (χ := Unit)
    ⟨"", #[{ label := { name := "" }, condition := .trivial, kind := .sequence, children := [7], stop := 1 }]⟩
    scene 0 { character := (), memory := {}, board := {} } = none := by
  rfl

end BehaviorTree

end Behavior
