import Behavior.Proofs.Json.Reader
import Behavior.Snapshot.Written
import Behavior.Trace.Written
/-!
# The written forms read back

A log is read back from its written form. So are the snapshots of a node and of an agent as long as the tree is
at most 63 nodes high; a higher one is refused (`load?_dump`).
-/

namespace Behavior

/-! ## Typed values -/

namespace Json

theorem mapM_map_eq_some {α β γ : Type} {f : α → β} {g : β → Option γ} {h : α → γ} {xs : List α}
    (hg : ∀ x ∈ xs, g (f x) = some (h x)) : (xs.map f).mapM g = some (xs.map h) := by
  induction xs with
  | nil => rfl
  | cons x xs ih =>
      have hx := hg x (by simp)
      have hxs := ih fun y hy => hg y (by simp [hy])
      simp [hx, hxs]

theorem filter_eq_singleton {fs : List (String × Json)} {k : String} {v : Json} (nodup : (fs.map (·.1)).Nodup)
    (h : (k, v) ∈ fs) : fs.filter (·.1 == k) = [(k, v)] := by
  induction fs with
  | nil => cases h
  | cons f fs ih =>
      rw [List.map_cons, List.nodup_cons] at nodup
      obtain ⟨hnew, nodup⟩ := nodup
      rcases List.mem_cons.mp h with rfl | h
      · have hrest : fs.filter (·.1 == k) = [] := by
          refine List.filter_eq_nil_iff.mpr fun f hf heq => hnew ?_
          exact List.mem_map.mpr ⟨f, hf, beq_iff_eq.mp heq⟩
        rw [List.filter_cons_of_pos (by simp), hrest]
      · have hne : f.1 ≠ k := by
          rintro rfl
          exact hnew (List.mem_map.mpr ⟨_, h, rfl⟩)
        rw [List.filter_cons_of_neg (by simpa using hne), ih nodup h]

/-- Each field of a record is found under its name. -/
theorem fields_record {fs : List (String × Json)} {names : List String} (hnames : fs.map (·.1) = names)
    (nodup : names.Nodup) : (record fs).fields names = some (fs.map (·.2)) := by
  subst hnames
  have hnamed : (fs.map fun f => (some f.1, f.2)).mapM (fun f => f.1.map (·, f.2)) = some (fs.map id) :=
    mapM_map_eq_some fun _ _ => rfl
  rw [List.map_id] at hnamed
  refine (congrArg (Option.bind · _) hnamed).trans (mapM_map_eq_some fun f hf => ?_)
  rw [filter_eq_singleton nodup hf]

@[simp] theorem word64?_ofWord64 {n : UInt64} : (ofWord64 n).word64? = some n := by
  simp [ofWord64, word64?, below?, n.toNat_lt_size]

@[simp] theorem word32?_natural {n : UInt32} : (natural n.toNat).word32? = some n := by
  simp [word32?, below?, n.toNat_lt_size]

@[simp] theorem entity?_ofEntity {e : EntityId} : (ofEntity e).entity? = some e := by
  simp [ofEntity, entity?]

@[simp] theorem string?_ofText {s : String} : (ofText s).string? = some s := rfl

@[simp] theorem status?_ofStatus {s : Status} : (ofStatus s).status? = some s := by
  cases s <;> rfl

end Json

open Json

/-! ## Logs -/

namespace TraceEvent

theorem plain_toJson (e : TraceEvent) : e.toJson.Plain := by
  simp [toJson, record, Plain, PlainFields, ofWord64, ofEntity, ofText]

theorem ofJson?_toJson (e : TraceEvent) : ofJson? e.toJson = some e := by
  have hfields : e.toJson.fields fieldNames = _ := fields_record rfl (by decide)
  simp [ofJson?, hfields]

end TraceEvent

namespace TraceLog

theorem plain_toJson (log : TraceLog) : log.toJson.Plain := by
  have hall : ∀ events : List TraceEvent, PlainAll (events.map (·.toJson)) := by
    intro events
    induction events with
    | nil => trivial
    | cons e events ih => exact ⟨e.plain_toJson, ih⟩
  simp [toJson, record, Plain, PlainFields, hall]

theorem ofJson?_toJson (log : TraceLog) : ofJson? log.toJson = some log := by
  have hfields : log.toJson.fields ["events"] = _ := fields_record rfl (by decide)
  have hevents : (log.events.map (·.toJson)).mapM TraceEvent.ofJson? = some (log.events.map id) :=
    mapM_map_eq_some fun e _ => e.ofJson?_toJson
  simp [ofJson?, hfields, items, hevents]

end TraceLog

/-! ## Snapshots -/

namespace NodeSnapshot

mutual

/-- The number of nodes on the longest way down, which is one for a leaf. -/
def height : NodeSnapshot → Nat
  | ⟨_, _, _, _, children⟩ => heightAll children + 1

def heightAll : List NodeSnapshot → Nat
  | [] => 0
  | n :: ns => max n.height (heightAll ns)

end

mutual

theorem plain_toJson : (n : NodeSnapshot) → n.toJson.Plain
  | ⟨id, name, condition, status, children⟩ => by
      have hall := plainAll_toJsonAll children
      simp [toJson, record, Plain, PlainFields, ofStatus, ofText, hall]

theorem plainAll_toJsonAll : (ns : List NodeSnapshot) → PlainAll (toJsonAll ns)
  | [] => trivial
  | n :: ns => ⟨plain_toJson n, plainAll_toJsonAll ns⟩

end

mutual

/-- Each node takes two levels. -/
theorem ofJson?_toJson : (n : NodeSnapshot) → (depth : Nat) →
    ofJson? depth n.toJson = if 2 * n.height ≤ depth then some n else none
  | ⟨id, name, condition, status, children⟩, 0 => by
      simp [ofJson?, height]
  | ⟨id, name, condition, status, children⟩, 1 => by
      rw [ofJson?, if_neg]
      · rw [height]; omega
      · simp
  | ⟨id, name, condition, status, children⟩, depth + 2 => by
      have hfields : (toJson ⟨id, name, condition, status, children⟩).fields fieldNames = _ :=
        fields_record rfl (by decide)
      have hchildren := mapM_ofJson?_toJsonAll children depth
      have hlevels : 2 * height ⟨id, name, condition, status, children⟩ ≤ depth + 2 ↔
          2 * heightAll children ≤ depth := by
        rw [height]; omega
      by_cases h : 2 * heightAll children ≤ depth <;> simp [ofJson?, hfields, hlevels, items, hchildren, h]

theorem mapM_ofJson?_toJsonAll : (ns : List NodeSnapshot) → (depth : Nat) →
    (toJsonAll ns).mapM (ofJson? depth) = if 2 * heightAll ns ≤ depth then some ns else none
  | [], depth => by simp [toJsonAll, heightAll]
  | n :: ns, depth => by
      have hn := ofJson?_toJson n depth
      have hns := mapM_ofJson?_toJsonAll ns depth
      have hlevels : 2 * heightAll (n :: ns) ≤ depth ↔ 2 * n.height ≤ depth ∧ 2 * heightAll ns ≤ depth := by
        rw [heightAll]; omega
      simp only [toJsonAll, List.mapM_cons, hn, hns, hlevels]
      by_cases h : 2 * n.height ≤ depth <;> by_cases h' : 2 * heightAll ns ≤ depth <;> simp [h, h']

end

end NodeSnapshot

namespace AgentSnapshot

theorem plain_toJson (a : AgentSnapshot) : a.toJson.Plain := by
  simp [toJson, record, Plain, PlainFields, ofWord64, ofEntity, ofStatus, ofText, a.root.plain_toJson]

/-- The object around the root takes one level more, which leaves an even number of them. -/
theorem ofJson?_toJson (a : AgentSnapshot) :
    ofJson? a.toJson = if a.root.height ≤ 63 then some a else none := by
  have hfields : a.toJson.fields fieldNames = _ := fields_record rfl (by decide)
  have hroot := a.root.ofJson?_toJson (levels - 1)
  have hlevels : 2 * a.root.height ≤ levels - 1 ↔ a.root.height ≤ 63 := by
    rw [levels]; omega
  simp only [hlevels] at hroot
  by_cases h : a.root.height ≤ 63 <;> simp [ofJson?, hfields, flag?, hroot, h]

end AgentSnapshot

/-- Reading back what has been written: always for a log, and for a snapshot exactly up to a height of 63. -/
theorem load?_dump (log : TraceLog) (n : NodeSnapshot) (a : AgentSnapshot) :
    TraceLog.load? log.dump = some log ∧
      (NodeSnapshot.load? n.dump = if n.height ≤ 63 then some n else none) ∧
      AgentSnapshot.load? a.dump = if a.root.height ≤ 63 then some a else none := by
  refine ⟨?_, ?_, ?_⟩
  · rw [TraceLog.load?, TraceLog.dump, parse?_render log.plain_toJson]
    exact log.ofJson?_toJson
  · have hlevels : 2 * n.height ≤ levels ↔ n.height ≤ 63 := by
      rw [levels]; omega
    have hread := n.ofJson?_toJson levels
    simp only [hlevels] at hread
    rw [NodeSnapshot.load?, NodeSnapshot.dump, parse?_render n.plain_toJson]
    exact hread
  · rw [AgentSnapshot.load?, AgentSnapshot.dump, parse?_render a.plain_toJson]
    exact a.ofJson?_toJson

end Behavior
