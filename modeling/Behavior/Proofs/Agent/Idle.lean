import Behavior.Proofs.Agent.Encounters
/-!
# Waiting leaves over many updates

A leaf that waits is running until the time that has passed since its first run comes to its duration, and finishes
then; the sums are exact (`waits_exactly`).
-/

namespace Behavior

open Step

variable {χ : Type}

/-! ## The timer -/

namespace Task

/-- What the timer is set to: the duration, or the greatest number of the range. -/
def capped (n : UInt64) : Nat := min n.toNat (2 ^ 63 - 1)

theorem capped_pos {n : UInt64} (h : n ≠ 0) : 0 < capped n := by
  have hne : n.toNat ≠ 0 := fun heq => h (UInt64.toNat_inj.mp heq)
  rw [capped]
  omega

theorem capped_le {n : UInt64} : (capped n : Int) ≤ Int64.maxValue.toInt := by
  rw [Int64.toInt_maxValue, capped]
  omega

theorem toInt_saturated_of_mem {n : Int} (hmin : Int64.minValue.toInt ≤ n) (hmax : n ≤ Int64.maxValue.toInt) :
    (saturated n).toInt = n := by
  rw [saturated, if_neg (Int.not_lt.mpr hmin), if_neg (Int.not_lt.mpr hmax)]
  exact Int64.toInt_ofInt_of_le hmin (Int.lt_add_one_of_le hmax)

theorem toInt_saturated_toNat {n : UInt64} : (saturated n.toNat).toInt = capped n := by
  have hmin : Int64.minValue.toInt ≤ n.toNat := by
    rw [Int64.toInt_minValue]
    omega
  by_cases hmax : (n.toNat : Int) ≤ Int64.maxValue.toInt
  · rw [toInt_saturated_of_mem hmin hmax, capped]
    rw [Int64.toInt_maxValue] at hmax
    omega
  · rw [saturated, if_neg (Int.not_lt.mpr hmin), if_pos (Int.not_le.mp hmax), capped]
    rw [Int64.toInt_maxValue] at hmax ⊢
    omega

/-- Taking a time off a timer that has not run out passes no end of the range. -/
theorem toInt_saturatingSub {timer : Int64} {n : UInt64} (h : 0 ≤ timer.toInt) :
    (saturatingSub timer (saturated n.toNat)).toInt = timer.toInt - capped n := by
  have hcapped := @capped_le n
  have htimer := timer.toInt_le
  have hmin : Int64.minValue.toInt = -Int64.maxValue.toInt - 1 := rfl
  rw [saturatingSub, toInt_saturated_toNat]
  exact toInt_saturated_of_mem (by omega) (by omega)

/-- What the timer of a waiting leaf comes to in a run: the first run sets it, and each later one takes off it the time
that has passed. -/
def remaining (millis delta : UInt64) (r : NodeRecord) : Int :=
  if r.status = .running then r.timer.toInt - capped delta else capped millis

end Task

/-- What a leaf answers that waits for some time, in updates that take these times: it is running from the first of
them on while the sum of the later ones is below that time, finishes in the one in which the sum comes to it, and begins
anew. -/
inductive Waits (duration : Nat) : List UInt64 → List Status → Prop where
  | nil : Waits duration [] []
  | waiting {first passed} (short : (passed.map UInt64.toNat).sum < duration) :
      Waits duration (first :: passed) (.running :: passed.map fun _ => .running)
  | finished {first passed last deltas results} (short : (passed.map UInt64.toNat).sum < duration)
      (up : duration ≤ (passed.map UInt64.toNat).sum + last.toNat) (rest : Waits duration deltas results) :
      Waits duration (first :: passed ++ last :: deltas)
        (.running :: passed.map (fun _ => .running) ++ .finished :: results)

namespace NodeRecord

variable {r : NodeRecord} {millis delta : UInt64} {passed : List UInt64}

/-- The timer of a leaf that is running has not run out. -/
def Armed (r : NodeRecord) : Prop := r.status = .running → 0 < r.timer.toInt

/-- The leaf is running, and its timer is what is left of its duration after these times. -/
structure Passed (r : NodeRecord) (millis : UInt64) (passed : List UInt64) : Prop where
  running : r.status = .running
  short : (passed.map UInt64.toNat).sum < Task.capped millis
  left : r.timer.toInt = Task.capped millis - (passed.map UInt64.toNat).sum

theorem Passed.armed (h : r.Passed millis passed) : r.Armed := by
  intro _
  have := h.short
  have := h.left
  omega

theorem passed_of_timer {after : Option NodeRecord} {left : Int} (running : (after.getD {}).status = .running)
    (timer : ∀ r, after = some r → r.timer.toInt = left) (hleft : 0 < left)
    (heq : left = Task.capped millis - (passed.map UInt64.toNat).sum) : (after.getD {}).Passed millis passed := by
  cases after with
  | none => cases running
  | some r => exact ⟨running, by omega, (timer r rfl).trans heq⟩

/-- The duration is not used up exactly if the sum is still below it, and then no time has been cut off. -/
theorem Passed.remaining (h : r.Passed millis passed) :
    (0 < Task.remaining millis delta r ↔ ((passed ++ [delta]).map UInt64.toNat).sum < Task.capped millis) ∧
      (0 < Task.remaining millis delta r →
        Task.remaining millis delta r = Task.capped millis - ((passed ++ [delta]).map UInt64.toNat).sum) := by
  have hmillis : Task.capped millis ≤ 2 ^ 63 - 1 := Nat.min_le_right _ _
  have hdelta : Task.capped delta = min delta.toNat (2 ^ 63 - 1) := rfl
  rw [Task.remaining, if_pos h.running, h.left, List.map_append, List.sum_append]
  simp only [List.map_singleton, List.sum_singleton]
  omega

/-- What the timer comes to passes no end of the range. -/
theorem Armed.remaining_mem (h : r.Armed) :
    Int64.minValue.toInt ≤ Task.remaining millis delta r ∧ Task.remaining millis delta r ≤ Int64.maxValue.toInt := by
  have hmin : Int64.minValue.toInt = -Int64.maxValue.toInt - 1 := rfl
  have hmillis := @Task.capped_le millis
  have hdelta := @Task.capped_le delta
  have htimer := r.timer.toInt_le
  rw [Task.remaining]
  split
  · next hrunning =>
    have := h hrunning
    omega
  · omega

end NodeRecord

namespace BehaviorTree

variable {t : BehaviorTree χ} {scene : Scene} {id : Nat} {s : Slot χ} {f : Frame χ} {millis : UInt64}

/-! ## One execution -/

theorem runTask_idle (hm : millis ≠ 0) (armed : (f.memory.getD id scene.entity).Armed) :
    (runTask scene id (Task.idle millis) f).1 =
        (if 0 < Task.remaining millis scene.tick.delta (f.memory.getD id scene.entity) then .running else .finished) ∧
      ((runTask scene id (Task.idle millis) f).2.memory.getD id scene.entity).timer.toInt =
        Task.remaining millis scene.tick.delta (f.memory.getD id scene.entity) := by
  generalize hr : f.memory.getD id scene.entity = r at armed
  cases hfirst : r.status.isRunning with
  | false =>
      have hstatus : r.status ≠ .running := fun h => by simp [h, Status.isRunning] at hfirst
      have hpos := Task.capped_pos hm
      rw [Task.remaining, if_neg hstatus, ← Task.toInt_saturated_toNat]
      rw [← Int.natCast_pos, ← Task.toInt_saturated_toNat] at hpos
      simp [runTask, Task.idle, hm, hr, hfirst, hpos, Outcome.result, Memory.setTimer, Memory.getD_update_self]
  | true =>
      have hstatus := Status.isRunning_iff.mp hfirst
      have hexact := @Task.toInt_saturatingSub _ scene.tick.delta (Int.le_of_lt (armed hstatus))
      rw [Task.remaining, if_pos hstatus, ← hexact]
      generalize hleft : Task.saturatingSub r.timer (Task.saturated scene.tick.delta.toNat) = left
      have hiff : 0 < left.toInt ↔ ¬ left ≤ 0 := by
        rw [Int64.le_iff_toInt_le, Int64.toInt_zero, Int.not_le]
      refine ⟨?_, ?_⟩
      · by_cases hdone : left ≤ 0 <;>
          simp [runTask, Task.idle, hm, hr, hfirst, hleft, Outcome.result, hiff, hdone]
      · simp [runTask, Task.idle, hm, hr, hfirst, hleft, Outcome.result, Memory.setTimer, Memory.getD_update_self]

theorem runTask_idle_zero : (runTask scene id (Task.idle 0) f).1 = .finished := by
  simp [runTask, Task.idle, Outcome.result]

variable [Character χ]

theorem Nested.execute_task {task : Task χ} (nested : t.Nested) (hs : t.slot? id = some s) (hk : s.kind = .task task)
    (allowed : (judge scene id s f).1 = true) :
    ∃ g : Frame χ, g.memory.getD id scene.entity = f.memory.getD id scene.entity ∧
      (t.execute scene id f).1 = (runTask scene id task g).1 ∧
      (t.execute scene id f).2.memory.getD id scene.entity =
        { (runTask scene id task g).2.memory.getD id scene.entity with
          status := (runTask scene id task g).1, lastExecuted := some scene.tick.time } := by
  refine ⟨(judge scene id s f).2, rfl, ?_, ?_⟩
  · simp [nested.execute_of_slot hs, visit, attempt, allowed, perform, hk]
  · simp [nested.execute_of_slot hs, visit, attempt, allowed, perform, hk, Memory.getD_update_self]

theorem Nested.execute_idle (nested : t.Nested) (hs : t.slot? id = some s) (hk : s.kind = .task (Task.idle millis))
    (hm : millis ≠ 0) (allowed : (judge scene id s f).1 = true) (armed : (f.memory.getD id scene.entity).Armed) :
    (t.execute scene id f).1 =
        (if 0 < Task.remaining millis scene.tick.delta (f.memory.getD id scene.entity) then .running else .finished) ∧
      ((t.execute scene id f).2.memory.getD id scene.entity).status = (t.execute scene id f).1 ∧
      ((t.execute scene id f).2.memory.getD id scene.entity).timer.toInt =
        Task.remaining millis scene.tick.delta (f.memory.getD id scene.entity) := by
  obtain ⟨g, hg, hresult, hrecord⟩ := nested.execute_task hs hk allowed
  rw [hrecord, hresult, ← hg]
  rw [← hg] at armed
  exact ⟨(runTask_idle hm armed).1, rfl, (runTask_idle hm armed).2⟩

/-- What happens to a waiting leaf of which this is remembered before and after. -/
inductive IdleTurn (millis delta : UInt64) (id : NodeId) (before : NodeRecord) (after : Option NodeRecord)
    (steps : List (Step χ)) : Prop where
  | rests (apart : id ∉ executed steps) (results : results [id] steps = [])
      (same : after.getD {} = before ∨ before.status ≠ .running ∧ after = none)
  | runs (executed : id ∈ executed steps)
      (results : results [id] steps = [(id, if 0 < Task.remaining millis delta before then .running else .finished)])
      (status : (after.getD {}).status = .running ↔ 0 < Task.remaining millis delta before)
      (timer : ∀ r, after = some r → r.timer.toInt = Task.remaining millis delta before)

variable {delta : UInt64} {before : NodeRecord} {after : Option NodeRecord} {steps : List (Step χ)}

theorem Recounts.idleTurn (recounts : t.Recounts scene id s f steps) (nested : t.Nested) (hs : t.slot? id = some s)
    (hk : s.kind = .task (Task.idle millis)) (hm : millis ≠ 0) (armed : (f.memory.getD id scene.entity).Armed)
    (allowed : .began id false ∉ steps) :
    IdleTurn millis scene.tick.delta id (f.memory.getD id scene.entity)
      ((t.execute scene id f).2.memory.get? id scene.entity) steps := by
  have hallowed : (judge scene id s f).1 = true := by
    rw [← Bool.not_eq_false]
    exact fun h => allowed ((recounts.visited.began false).mpr h.symm)
  obtain ⟨hresult, hstatus, htimer⟩ := nested.execute_idle hs hk hm hallowed armed
  refine .runs recounts.visited.mem_executed (hresult ▸ recounts.self) ?_ fun r hr => ?_
  · rw [← Memory.getD_eq, hstatus, hresult]
    split <;> simp_all
  · rw [← htimer, Memory.getD_eq, hr]
    rfl

omit [Character χ] in
theorem IdleTurn.armed (turn : IdleTurn millis delta id before after steps) (armed : before.Armed) :
    (after.getD {}).Armed := by
  cases turn with
  | rests apart results same =>
      rcases same with rfl | ⟨-, rfl⟩
      · exact armed
      · exact nofun
  | runs executed results status timer =>
      intro hrunning
      cases after with
      | none => cases hrunning
      | some r => exact timer r rfl ▸ status.mp hrunning

omit [Character χ] in
theorem IdleTurn.of_fresh (turn : IdleTurn millis delta id before after steps) (hm : millis ≠ 0)
    (fresh : before.status ≠ .running) :
    (id ∉ executed steps ∧ results [id] steps = [] ∧ (after.getD {}).status ≠ .running) ∨
      (id ∈ executed steps ∧ results [id] steps = [(id, .running)] ∧ (after.getD {}).Passed millis []) := by
  cases turn with
  | rests apart results same =>
      refine .inl ⟨apart, results, ?_⟩
      rcases same with rfl | ⟨-, rfl⟩
      · exact fresh
      · exact nofun
  | runs executed results status timer =>
      have hleft : Task.remaining millis delta before = Task.capped millis := if_neg fresh
      have hpos : 0 < Task.remaining millis delta before := by
        rw [hleft]
        exact Int.natCast_pos.mpr (Task.capped_pos hm)
      rw [if_pos hpos] at results
      refine .inr ⟨executed, results, NodeRecord.passed_of_timer (status.mpr hpos) timer hpos ?_⟩
      simpa using hleft

omit [Character χ] in
theorem IdleTurn.of_passed (turn : IdleTurn millis delta id before after steps) {passed : List UInt64}
    (h : before.Passed millis passed) :
    (id ∉ executed steps ∧ results [id] steps = [] ∧ after.getD {} = before) ∨
      (id ∈ executed steps ∧ results [id] steps = [(id, .running)] ∧
        (after.getD {}).Passed millis (passed ++ [delta])) ∨
      (id ∈ executed steps ∧ results [id] steps = [(id, .finished)] ∧ (after.getD {}).status ≠ .running ∧
        Task.capped millis ≤ (passed.map UInt64.toNat).sum + delta.toNat) := by
  cases turn with
  | rests apart results same =>
      exact .inl ⟨apart, results, same.resolve_right fun lost => lost.1 h.running⟩
  | runs executed results status timer =>
      obtain ⟨hiff, heq⟩ := @NodeRecord.Passed.remaining _ _ delta _ h
      by_cases hpos : 0 < Task.remaining millis delta before
      · rw [if_pos hpos] at results
        have hpassed := NodeRecord.passed_of_timer (status.mpr hpos) timer hpos (heq hpos)
        exact .inr (.inl ⟨executed, results, hpassed⟩)
      · rw [if_neg hpos] at results
        have hup := Nat.not_lt.mp (mt hiff.mpr hpos)
        rw [List.map_append, List.sum_append] at hup
        exact .inr (.inr ⟨executed, results, mt status.mp hpos, hup⟩)

omit [Character χ] in
/-- A leaf that is not left running may be forgotten. -/
theorem IdleTurn.forgotten (turn : IdleTurn millis delta id before after steps)
    (lost : ¬ (before.status = .running ∧ id ∉ executed steps ∨ .ended id .running ∈ steps)) :
    IdleTurn millis delta id before none steps := by
  cases turn with
  | rests apart results => exact .rests apart results (.inr ⟨fun h => lost (.inl ⟨h, apart⟩), rfl⟩)
  | runs executed results =>
      refine .runs executed results (iff_of_false nofun fun hleft => lost (.inr ?_)) nofun
      rw [if_pos hleft] at results
      exact (mem_results.mp (results ▸ List.mem_singleton_self _)).2

end BehaviorTree

namespace Agent

open BehaviorTree

variable [Character χ]

/-! ## One operation -/

def Operation.delta : Operation χ → UInt64
  | .update _ delta => delta
  | _ => 0

/-- In the operation, the guard of the node does not fail, and no reset hits the node while it is running. -/
structure Undisturbs (a : Agent χ) (id : NodeId) (op : Operation χ) : Prop where
  behavior : (a.perform op).behavior = a.behavior
  entity : (a.perform op).entity = a.entity
  allowed : .began id false ∉ a.stepsOf op
  entry : a.nodeStatus id = .running ∧ id ∉ executed (a.stepsOf op) ∨ .ended id .running ∈ a.stepsOf op →
    ((a.perform op).memory.get? id a.entity).isSome

inductive Undisturbed (id : NodeId) : Agent χ → List (Operation χ) → Prop where
  | nil {a : Agent χ} : Undisturbed id a []
  | cons {a : Agent χ} {op : Operation χ} {ops : List (Operation χ)} (undisturbs : a.Undisturbs id op)
      (rest : Undisturbed id (a.perform op) ops) : Undisturbed id a (op :: ops)

variable {a : Agent χ} {op : Operation χ} {ops : List (Operation χ)} {name : String} {root : TreeNode χ} {id : Nat}
  {s : Slot χ} {millis : UInt64}

theorem Undisturbed.update {home : Option Roster} {delta : UInt64}
    (allowed : .began id false ∉ (a.update home delta).steps)
    (entry : ((a.update home delta).agent.memory.get? id a.entity).isSome)
    (rest : Undisturbed id (a.update home delta).agent ops) : Undisturbed id a (.update home delta :: ops) :=
  .cons ⟨behavior_update, entity_update, allowed, fun _ => entry⟩ rest

theorem idleTurn_perform (hb : a.behavior = .ofNode name root) (hs : a.behavior.slot? id = some s)
    (hk : s.kind = .task (Task.idle millis)) (hm : millis ≠ 0) (armed : (a.memory.getD id a.entity).Armed)
    (undisturbs : a.Undisturbs id op) :
    IdleTurn millis op.delta id (a.memory.getD id a.entity) ((a.perform op).memory.get? id a.entity)
      (a.stepsOf op) := by
  have nested : a.behavior.Nested := hb ▸ nested_ofNode name root
  have hself := nested.mem_self hs
  have entry := undisturbs.entry
  cases op with
  | update home delta =>
      rw [perform, memory_update] at entry ⊢
      -- what the leaf does in the update, after which its subtree may be forgotten
      obtain ⟨f, turn, misses⟩ : ∃ f, IdleTurn millis delta id (a.memory.getD id a.entity) (f.memory.get? id a.entity)
          (a.update home delta).steps ∧ a.behavior.Misses (a.scene home delta) id f (a.frameAfter home delta) := by
        cases @encounter_update _ _ a home delta _ _ _ _ hb hs with
        | missed misses =>
            refine ⟨_, .rests ?_ (results_of_misses misses hself) (.inl rfl), misses⟩
            exact not_mem_executed_of_misses misses hself
        | @met f spares recounts misses =>
            have hbefore : f.memory.getD id a.entity = a.memory.getD id a.entity :=
              Memory.getD_congr (spares.2.2 id hself)
            refine ⟨_, ?_, misses⟩
            rw [← hbefore] at armed ⊢
            exact recounts.idleTurn nested hs hk hm armed undisturbs.allowed
      cases misses.2.2 with
      | inl same =>
          have hsame : (a.frameAfter home delta).memory.get? id a.entity = f.memory.get? id a.entity := same id hself
          exact hsame ▸ turn
      | inr forgotten =>
          have hgone : (a.frameAfter home delta).memory.get? id a.entity = none := forgotten id hself
          rw [hgone] at entry ⊢
          exact turn.forgotten fun h => Bool.false_ne_true (entry h)
  | resetState | setBehavior | setCharacter =>
      refine .rests List.not_mem_nil rfl (.inr ⟨fun hrunning => ?_, Memory.get?_empty⟩)
      exact absurd Memory.get?_empty (Option.ne_none_iff_isSome.mpr (entry (.inl ⟨hrunning, List.not_mem_nil⟩)))
  | setPaused | setSeed | setZone | changeBoard | changeCharacter => exact .rests List.not_mem_nil rfl (.inl rfl)

/-! ## Runs -/

/-- The times that the updates take in which a node is executed. -/
def deltasAlong (id : NodeId) (a : Agent χ) : List (Operation χ) → List UInt64
  | [] => []
  | op :: ops => (if id ∈ executed (a.stepsOf op) then [op.delta] else []) ++ deltasAlong id (a.perform op) ops

section

variable (hk : s.kind = .task (Task.idle millis)) (hm : millis ≠ 0)

include hk hm

theorem waits_run (undisturbed : Undisturbed id a ops) (hb : a.behavior = .ofNode name root)
    (hs : a.behavior.slot? id = some s) :
    (a.nodeStatus id ≠ .running →
      Waits (Task.capped millis) (deltasAlong id a ops) ((resultsAlong [id] a ops).map Prod.snd)) ∧
      ∀ first passed, (a.memory.getD id a.entity).Passed millis passed →
        Waits (Task.capped millis) (first :: passed ++ deltasAlong id a ops)
          (.running :: passed.map (fun _ => .running) ++ (resultsAlong [id] a ops).map Prod.snd) := by
  -- the induction carries both states of the leaf: at rest, and running since a first run after which these times passed
  induction undisturbed with
  | nil =>
      refine ⟨fun _ => .nil, fun first passed h => ?_⟩
      simpa [deltasAlong, resultsAlong] using Waits.waiting h.short
  | @cons a op ops undisturbs _ ih =>
      obtain ⟨anew, goesOn⟩ := ih (undisturbs.behavior.trans hb) (undisturbs.behavior ▸ hs)
      have turn (armed : (a.memory.getD id a.entity).Armed) := idleTurn_perform hb hs hk hm armed undisturbs
      simp only [nodeStatus, Memory.status, Memory.getD_eq, undisturbs.entity] at anew goesOn turn ⊢
      simp only [deltasAlong, resultsAlong, List.map_append]
      refine ⟨fun fresh => ?_, fun first passed h => ?_⟩
      · rcases (turn fun h => absurd h fresh).of_fresh hm fresh with ⟨apart, results, fresh⟩ | ⟨executed, results, h⟩
        · simpa [apart, results] using anew fresh
        · simpa [executed, results] using goesOn op.delta [] h
      · rcases (turn h.armed).of_passed h with
          ⟨apart, results, same⟩ | ⟨executed, results, h⟩ | ⟨executed, results, fresh, up⟩
        · simpa [apart, results] using goesOn first passed (same ▸ h)
        · simpa [executed, results] using goesOn first (passed ++ [op.delta]) h
        · simpa [executed, results] using @Waits.finished _ first _ _ _ _ h.short up (anew fresh)

/-- On the way, the timer of the leaf has not run out while it is running. -/
theorem Undisturbed.armed {rest : List (Operation χ)} (undisturbed : Undisturbed id a (ops ++ rest))
    (hb : a.behavior = .ofNode name root) (hs : a.behavior.slot? id = some s)
    (armed : (a.memory.getD id a.entity).Armed) :
    Undisturbed id (a.run ops) rest ∧ (a.run ops).behavior = a.behavior ∧ (a.run ops).entity = a.entity ∧
      ((a.run ops).memory.getD id a.entity).Armed := by
  induction ops generalizing a with
  | nil => exact ⟨undisturbed, rfl, rfl, armed⟩
  | cons op ops ih =>
      cases undisturbed with
      | cons undisturbs rest =>
          have turn := idleTurn_perform hb hs hk hm armed undisturbs
          have armed := turn.armed armed
          rw [← Memory.getD_eq, ← undisturbs.entity] at armed
          have next := ih rest (undisturbs.behavior.trans hb) (undisturbs.behavior ▸ hs) armed
          rw [undisturbs.behavior, undisturbs.entity] at next
          exact next

end

theorem finished_of_zero (hb : a.behavior = .ofNode name root) (hs : a.behavior.slot? id = some s)
    (hk : s.kind = .task (Task.idle 0)) (began : .began id true ∈ a.stepsOf op) :
    results [id] (a.stepsOf op) = [(id, .finished)] := by
  have nested : a.behavior.Nested := hb ▸ nested_ofNode name root
  obtain ⟨home, delta, f, rfl, -, recounts, -, hallowed⟩ := exists_met_of_began hb hs began
  obtain ⟨g, -, hresult, -⟩ := nested.execute_task hs hk hallowed
  rw [runTask_idle_zero] at hresult
  exact hresult ▸ recounts.self

/-- A leaf that waits for no time finishes whenever it runs. Any other that is not running is running, while nothing
disturbs it, until the exact sum of the times after its first run comes to its duration, or to the greatest number that
its timer can hold; then it finishes, and begins anew. Its timer is exact throughout. -/
theorem waits_exactly (hb : a.behavior = .ofNode name root) (hs : a.behavior.slot? id = some s)
    (hk : s.kind = .task (Task.idle millis)) :
    (millis = 0 → ∀ op, .began id true ∈ a.stepsOf op → results [id] (a.stepsOf op) = [(id, .finished)]) ∧
      (millis ≠ 0 → a.nodeStatus id ≠ .running → ∀ ops, Undisturbed id a ops →
        Waits (Task.capped millis) (deltasAlong id a ops) ((resultsAlong [id] a ops).map Prod.snd) ∧
          ∀ before op after, ops = before ++ op :: after → id ∈ executed ((a.run before).stepsOf op) →
            let left := Task.remaining millis op.delta ((a.run before).memory.getD id a.entity)
            (Int64.minValue.toInt ≤ left ∧ left ≤ Int64.maxValue.toInt) ∧
              ∀ r, ((a.run before).perform op).memory.get? id a.entity = some r → r.timer.toInt = left) := by
  refine ⟨fun hm op began => ?_, fun hm fresh ops undisturbed => ⟨?_, fun before op after heq hexecuted => ?_⟩⟩
  · subst hm
    exact finished_of_zero hb hs hk began
  · exact (waits_run hk hm undisturbed hb hs).1 fresh
  · subst heq
    obtain ⟨undisturbed, hbehavior, hentity, armed⟩ :=
      undisturbed.armed hk hm hb hs fun hrunning => absurd hrunning fresh
    refine ⟨armed.remaining_mem, ?_⟩
    rw [← hentity] at armed ⊢
    cases undisturbed with
    | cons undisturbs =>
        cases idleTurn_perform (hbehavior.trans hb) (hbehavior ▸ hs) hk hm armed undisturbs with
        | rests apart => exact absurd hexecuted apart
        | runs executed results status timer => exact timer

/-- A leaf that waits for five milliseconds, and begins anew. -/
theorem waits_exactly_five :
    let a : Agent Unit := { entity := ⟨7⟩, character := (), behavior := .ofNode "" (.idle 5) }
    let ops : List (Operation Unit) := [.update none 9, .update none 2, .update none 4, .update none 1]
    a.nodeStatus NodeId.root ≠ .running ∧ Undisturbed NodeId.root a ops ∧
      Waits 5 [9, 2, 4, 1] [.running, .running, .finished, .running] := by
  intro a ops
  have fresh : a.nodeStatus NodeId.root ≠ .running := by decide +kernel
  have allowed {steps : List (Step Unit)} (h : steps.all fun st => (executed? st).isNone || runs NodeId.root st) :
      .began NodeId.root false ∉ steps := fun hst => absurd (List.all_eq_true.mp h _ hst) (by decide)
  have undisturbed : Undisturbed NodeId.root a ops := by
    refine .update (allowed ?_) ?_ (.update (allowed ?_) ?_ (.update (allowed ?_) ?_ (.update (allowed ?_) ?_ .nil))) <;>
      decide +kernel
  have waits := ((@waits_exactly _ _ a _ _ NodeId.root _ 5 rfl rfl rfl).2 (by decide) fresh ops undisturbed).1
  have hdeltas : deltasAlong NodeId.root a ops = [9, 2, 4, 1] := by decide +kernel
  have hresults : (resultsAlong [NodeId.root] a ops).map Prod.snd = [.running, .running, .finished, .running] := by
    decide +kernel
  have hcapped : Task.capped 5 = 5 := by decide +kernel
  rw [hcapped, hdeltas, hresults] at waits
  exact ⟨fresh, undisturbed, waits⟩

end Agent

end Behavior
