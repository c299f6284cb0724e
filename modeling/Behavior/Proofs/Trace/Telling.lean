import Behavior.Tree.Frame
import Mathlib.Data.List.Chain
/-!
# What a log tells

The statuses that the events of a log tell of a node, and what a frame with a log owes to it: the log is
faithful to a node if it tells changes only and the last of them is what is recorded.
-/

namespace Behavior

variable {χ : Type}

/-- The statuses that events tell of a node, in order; before the first one it is unknown. -/
def told (events : List TraceEvent) (n : Nat) : List Status :=
  .unknown :: ((TraceLog.mk events).statusChanges.filter (·.node.toNat == n)).map (·.status)

/-- What is known of each node after these changes, if nothing was known before. -/
def replay (changes : List StatusChange) : Nat → Status :=
  changes.foldl (fun known c n => if n = c.node.toNat then c.status else known n) fun _ => .unknown

section Told

variable {events : List TraceEvent} {tick : UInt64} {e : EntityId} {n k : Nat} {s : Status}

theorem statusChange_nodeStatus (hk : k < UInt32.size) :
    (TraceEvent.nodeStatus tick e k s).statusChange = { tick, node := UInt32.ofNat k, status := s } := by
  have hk64 : k < UInt64.size := Nat.lt_trans hk (by decide)
  have hle : UInt64.ofNat k ≤ 0xFFFFFFFF := by
    rw [UInt64.le_iff_toNat_le, UInt64.toNat_ofNat_of_lt' hk64]
    exact Nat.le_of_lt_succ hk
  simp [TraceEvent.statusChange, TraceEvent.nodeStatus, hle, Status.ofCode_code]

/-- A change is told of its node only. -/
theorem told_nodeStatus (hk : k < UInt32.size) :
    told (events ++ [.nodeStatus tick e k s]) n = told events n ++ if n = k then [s] else [] := by
  have htag : (TraceEvent.nodeStatus tick e k s).tag == TraceEvent.statusTag := by simp [TraceEvent.nodeStatus]
  have hnode : (UInt32.ofNat k).toNat = k := UInt32.toNat_ofNat_of_lt' hk
  simp only [told, TraceLog.statusChanges, TraceLog.withTag, List.filter_append, List.map_append,
    List.filter_cons, htag, if_true, List.filter_nil, List.map_cons, List.map_nil, statusChange_nodeStatus hk,
    hnode, List.cons_append]
  by_cases h : n = k
  · simp [h]
  · simp [h, Ne.symm h]

theorem told_taskFault : told (events ++ [.taskFault tick e k]) n = told events n := by
  simp [told, TraceLog.statusChanges, TraceLog.withTag, TraceEvent.taskFault, TraceEvent.faultTag,
    TraceEvent.statusTag]

/-- Replaying ends with what was told last. -/
theorem getLast?_told : (told events n).getLast? = some (replay (TraceLog.mk events).statusChanges n) := by
  have h : ∀ (changes : List StatusChange) (known : Nat → Status),
      (known n :: (changes.filter (·.node.toNat == n)).map (·.status)).getLast? =
        some (changes.foldl (fun known c n => if n = c.node.toNat then c.status else known n) known n) := by
    intro changes
    induction changes with
    | nil => exact fun _ => rfl
    | cons c cs ih =>
        intro known
        rw [List.foldl_cons, ← ih]
        by_cases hn : n = c.node.toNat
        · simp [hn]
        · simp [hn, Ne.symm hn]
  exact h (TraceLog.mk events).statusChanges fun _ => .unknown

end Told

/-! ## Listening -/

namespace Frame

/-- The events that a frame's log holds. -/
def events (f : Frame χ) : List TraceEvent := ((f.board.get? Trace.logKey).map (·.events)).getD []

/-- There is a log, and there is a sink or not. -/
structure Listening (sink : Bool) (f : Frame χ) : Prop where
  log : f.board.contains Trace.logKey = true
  sink : f.board.contains Trace.sinkKey = sink

variable {f g h : Frame χ} {e : TraceEvent} {scene : Scene} {sink : Bool} {n k : Nat}

theorem Listening.get?_log (hf : f.Listening sink) : f.board.get? Trace.logKey = some ⟨f.events⟩ := by
  obtain ⟨log, hlog⟩ := Option.isSome_iff_exists.mp hf.log
  simp [events, hlog]

theorem Listening.trace (hf : f.Listening sink) : (f.trace e).Listening sink where
  log := by
    have := hf.log
    simp only [Blackboard.contains] at this ⊢
    simp only [Frame.trace, Trace.record, Blackboard.get?_modify_self, Option.isSome_map, this]
  sink := by
    have := hf.sink
    simp only [Blackboard.contains] at this ⊢
    rw [Frame.trace, Trace.record, Blackboard.get?_modify_of_ne (by decide), this]

theorem Listening.events_trace (hf : f.Listening sink) : (f.trace e).events = f.events ++ [e] := by
  obtain ⟨log, hlog⟩ := Option.isSome_iff_exists.mp hf.log
  simp [events, Frame.trace, Trace.record, Blackboard.get?_modify_self, hlog, TraceLog.push]

theorem Listening.received_trace (hf : f.Listening sink) :
    (f.trace e).received = f.received ++ if sink then [e] else [] := by
  simp [Frame.trace, Trace.sent, hf.sink]

/-- Between the two frames, events were added to the log that carry the entity and the tick, and a sink has
received just these. -/
structure Emits (scene : Scene) (sink : Bool) (f g : Frame χ) : Prop where
  listening : g.Listening sink
  added : ∃ new, g.events = f.events ++ new ∧ g.received = f.received ++ (if sink then new else []) ∧
    ∀ e ∈ new, e.tick = scene.tick.number ∧ e.entity = scene.entity

theorem Emits.refl (hf : f.Listening sink) : Emits scene sink f f := ⟨hf, [], by simp, by simp, by simp⟩

theorem Emits.trans (hfg : Emits scene sink f g) (hgh : Emits scene sink g h) : Emits scene sink f h := by
  obtain ⟨new, hevents, hreceived, hall⟩ := hfg.added
  obtain ⟨new', hevents', hreceived', hall'⟩ := hgh.added
  refine ⟨hgh.listening, new ++ new', by rw [hevents', hevents, List.append_assoc], ?_, fun e he => ?_⟩
  · rw [hreceived', hreceived, List.append_assoc]
    cases sink <;> simp
  · exact (List.mem_append.mp he).elim (hall e) (hall' e)

theorem Listening.emits_trace (hf : f.Listening sink) (he : e.tick = scene.tick.number ∧ e.entity = scene.entity) :
    Emits scene sink f (f.trace e) :=
  ⟨hf.trace, [e], hf.events_trace, hf.received_trace, by simpa using he⟩

/-- The log tells of a node what is recorded of it, and only changes. -/
structure Faithful (scene : Scene) (f : Frame χ) (n : NodeId) : Prop where
  changes : (told f.events n).IsChain (· ≠ ·)
  last : (told f.events n).getLast? = some (f.status scene n)

theorem Faithful.congr {scene' : Scene} (hf : f.Faithful scene n) (htold : told g.events n = told f.events n)
    (hstatus : g.status scene' n = f.status scene n) : g.Faithful scene' n :=
  ⟨by rw [htold]; exact hf.changes, by rw [htold, hstatus]; exact hf.last⟩

/-- A change of the status that was told is told. -/
theorem Faithful.change {s : Status} (hf : f.Faithful scene n)
    (htold : told g.events n = told f.events n ++ if f.status scene n = s then [] else [s])
    (hstatus : g.status scene n = s) : g.Faithful scene n := by
  by_cases h : f.status scene n = s
  · exact hf.congr (by simpa [h] using htold) (hstatus.trans h.symm)
  · rw [if_neg h] at htold
    refine ⟨?_, by rw [htold, hstatus]; simp⟩
    rw [htold]
    refine hf.changes.append (.singleton s) fun x hx y hy => ?_
    rw [hf.last, Option.mem_some_iff] at hx
    simp only [List.head?_cons, Option.mem_some_iff] at hy
    rw [← hx, ← hy]
    exact h

/-! ## Forgetting -/

theorem Listening.emits_forgetTraced (hf : f.Listening sink) : Emits scene sink f (f.forgetTraced scene k) := by
  have hforget : (f.forget scene k).Listening sink := ⟨hf.log, hf.sink⟩
  have hfirst : Emits scene sink f (f.forget scene k) := ⟨hforget, [], by simp [events, forget], by simp [forget], by simp⟩
  simp only [forgetTraced]
  split
  · exact hfirst
  · exact hfirst.trans (hforget.emits_trace ⟨rfl, rfl⟩)

theorem Listening.told_forgetTraced (hf : f.Listening sink) (hk : k < UInt32.size) :
    told (f.forgetTraced scene k).events n =
      told f.events n ++ if n = k ∧ f.status scene k ≠ .unknown then [.unknown] else [] := by
  have hforget : (f.forget scene k).Listening sink := ⟨hf.log, hf.sink⟩
  simp only [forgetTraced]
  by_cases h : f.status scene k = .unknown
  · simp [h, events, forget]
  · simp only [h, if_false, hforget.events_trace, told_nodeStatus hk]
    simp [h, events, forget]

theorem status_forgetTraced :
    (f.forgetTraced scene k).status scene n = if n = k then .unknown else f.status scene n := by
  simp only [status_eq, memory_forgetTraced, Memory.status_eq_get?, Memory.get?_forget]
  by_cases h : n = k <;> simp [h]

theorem Faithful.forgetTraced (h : f.Faithful scene n) (hf : f.Listening sink) (hk : k < UInt32.size) :
    (f.forgetTraced scene k).Faithful scene n := by
  by_cases hn : n = k
  · subst hn
    refine h.change (s := .unknown) ?_ (by simp [status_forgetTraced])
    rw [hf.told_forgetTraced hk]
    by_cases hs : f.status scene n = .unknown <;> simp [hs]
  · refine h.congr ?_ (by simp [status_forgetTraced, hn])
    simp [hf.told_forgetTraced hk, hn]

/-! ## Recording -/

variable {previous s : Status}

theorem status_record : (f.record scene k previous s).status scene n = if n = k then s else f.status scene n := by
  simp only [status_eq, memory_record, Memory.status_eq_get?, Memory.get?_update]
  by_cases h : n = k <;> simp [h]

theorem Listening.emits_record (hf : f.Listening sink) : Emits scene sink f (f.record scene k previous s) := by
  have hupdate {m : Memory} : ({ f with memory := m } : Frame χ).Listening sink := ⟨hf.log, hf.sink⟩
  have hfirst {m : Memory} : Emits scene sink f { f with memory := m } :=
    ⟨hupdate, [], by simp [events], by simp, by simp⟩
  simp only [record]
  split
  · exact hfirst
  · exact hfirst.trans (hupdate.emits_trace ⟨rfl, rfl⟩)

theorem Listening.told_record (hf : f.Listening sink) (hk : k < UInt32.size) :
    told (f.record scene k previous s).events n =
      told f.events n ++ if n = k ∧ previous ≠ s then [s] else [] := by
  have hupdate {m : Memory} : ({ f with memory := m } : Frame χ).Listening sink := ⟨hf.log, hf.sink⟩
  simp only [record]
  by_cases h : previous = s
  · simp [h, events]
  · simp only [h, if_false, hupdate.events_trace, told_nodeStatus hk]
    simp [h, events]

end Frame

end Behavior
