import Behavior.Proofs.Random.Total
import Behavior.Proofs.Tree.Calls
import Behavior.Proofs.Tree.Running
/-!
# Selectors

Selectors and parallel nodes forget every child that they do not leave running, and those that remember a child
remember the one that they left running (`Nested.neat_execute`). Where no child can be chosen, nothing is
forgotten: there it holds because nothing is remembered, which is what every execution before has left
(`Committed`).
-/

namespace Behavior

variable {χ : Type}

/-- Whether a node of this kind forgets its children as they are done. -/
def NodeKind.Cleans : NodeKind χ → Prop
  | .prioritySelector | .probabilitySelector _ | .randomSelector | .parallel => True
  | _ => False

/-- Whether a node of this kind remembers which child it left running, and forgets the others. -/
def NodeKind.Commits : NodeKind χ → Prop
  | .prioritySelector | .probabilitySelector _ => True
  | _ => False

theorem NodeKind.Commits.cleans {k : NodeKind χ} (h : k.Commits) : k.Cleans := by
  cases k with
  | prioritySelector | probabilitySelector => trivial
  | sequence | randomSelector | parallel | invert | succeed | fail | limit | task => exact h.elim

/-- Whether a child can be chosen by its weight. -/
def NodeKind.Admits (i : Nat) : NodeKind χ → Prop
  | .probabilitySelector weights => eligible (weights[i]?.getD 1)
  | _ => True

namespace BehaviorTree

open Step

/-- A child is as its call left it if that left it running, and forgotten otherwise. -/
structure Tidy (t : BehaviorTree χ) (scene : Scene) (run : Runner χ) (calls : List (Call χ)) (g : Frame χ)
    (c : NodeId) : Prop where
  kept {h : Frame χ} : (c, h) ∈ calls → (run c h).1 = .running → t.Same scene c (run c h).2 g
  forgotten : (∀ h, (c, h) ∈ calls → (run c h).1 ≠ .running) → t.Forgotten scene c g

/-- What a node remembers that gave this result: the child that it left running, if it is running itself. -/
inductive Elects (scene : Scene) (run : Runner χ) (id : NodeId) (s : Slot χ) (calls : List (Call χ)) (g : Frame χ)
    (r : Status) : Prop where
  | nobody (result : r ≠ .running) (selected : g.selected scene id = none)
      (none_running : ∀ x ∈ calls, (run x.1 x.2).1 ≠ .running)
  | child {i : Nat} {c : NodeId} {h : Frame χ} (result : r = .running) (selected : g.selected scene id = some i)
      (admitted : s.kind.Admits i) (place : s.children[i]? = some c) (call : (c, h) ∈ calls)
      (running : (run c h).1 = .running) (only : ∀ x ∈ calls, (run x.1 x.2).1 = .running → x.1 = c)

/-- Between executions, a selector remembers nothing of its children but of the selected one. -/
structure Committed (t : BehaviorTree χ) (id : NodeId) (s : Slot χ) (e : EntityId) (m : Memory) : Prop where
  admitted {i : Nat} : m.selected id e = some i → s.kind.Admits i ∧ ∃ c, s.children[i]? = some c
  others {c : NodeId} : c ∈ s.children → (∀ i, m.selected id e = some i → s.children[i]? ≠ some c) →
    ∀ n ∈ t.subtree c, m.get? n e = none

variable {t : BehaviorTree χ} {scene : Scene} {run : Runner χ} {id c : Nat} {s : Slot χ} {f g g' : Frame χ}
  {calls : List (Call χ)} {r : Status}

/-! ## Tidy children -/

theorem Forgotten.same (h : t.Forgotten scene c g) (same : t.Same scene c g g') : t.Forgotten scene c g' :=
  fun n hn => (same n hn).trans (h n hn)

theorem Tidy.same (h : t.Tidy scene run calls g c) (same : t.Same scene c g g') : t.Tidy scene run calls g' c :=
  ⟨fun hcall hr => (h.kept hcall hr).trans same, fun hnone => (h.forgotten hnone).same same⟩

theorem Tidy.cons (h : t.Tidy scene run calls g c) {x : Call χ} (hne : x.1 ≠ c) :
    t.Tidy scene run (x :: calls) g c := by
  refine ⟨fun {h'} hcall hr => ?_, fun hnone => h.forgotten fun h' hcall => hnone h' (List.mem_cons_of_mem x hcall)⟩
  rcases List.mem_cons.mp hcall with rfl | hcall
  · exact absurd rfl hne
  · exact h.kept hcall hr

/-- A child that is not called. -/
theorem tidy_of_forgotten (h : t.Forgotten scene c g) (hnot : ∀ x ∈ calls, x.1 ≠ c) : t.Tidy scene run calls g c :=
  ⟨fun hcall _ => absurd rfl (hnot _ hcall), fun _ => h⟩

/-- A child that is called once. -/
theorem tidy_cons (hnot : ∀ x ∈ calls, x.1 ≠ c)
    (kept : (run c f).1 = .running → t.Same scene c (run c f).2 g)
    (forgotten : (run c f).1 ≠ .running → t.Forgotten scene c g) : t.Tidy scene run ((c, f) :: calls) g c := by
  refine ⟨fun {h} hcall hr => ?_, fun hnone => forgotten (hnone f List.mem_cons_self)⟩
  rcases List.mem_cons.mp hcall with heq | hcall
  · cases heq
    exact kept hr
  · exact absurd rfl (hnot _ hcall)

theorem forgotten_reset : t.Forgotten scene c (t.reset scene c f) := by
  intro n hn
  rw [memory_reset, get?_resetState, if_pos ⟨hn, rfl⟩]

theorem status_of_forgotten (h : t.Forgotten scene c g) (hself : c ∈ t.subtree c) : g.status scene c = .unknown := by
  rw [Frame.status_eq, Memory.status_eq_get?, h c hself]
  rfl

/-- A tidy child is running if its call left it so. -/
theorem Tidy.running_iff (h : t.Tidy scene run calls g c) (hself : c ∈ t.subtree c)
    (status : ∀ f, (run c f).2.status scene c = (run c f).1) :
    g.status scene c = .running ↔ ∃ h, (c, h) ∈ calls ∧ (run c h).1 = .running := by
  constructor
  · intro hrunning
    refine Classical.byContradiction fun hnone => ?_
    have hforgotten := h.forgotten fun h hcall hr => hnone ⟨h, hcall, hr⟩
    simp [status_of_forgotten hforgotten hself] at hrunning
  · rintro ⟨h', hcall, hr⟩
    rw [Frame.status_eq, Memory.status_eq_get?, h.kept hcall hr c hself, ← Memory.status_eq_get?, ← Frame.status_eq,
      status, hr]

section Siblings

variable (nested : t.Nested) (hs : t.slot? id = some s)

include nested hs

theorem same_reset {d : NodeId} (hd : d ∈ s.children) (hc : c ∈ s.children) (hne : d ≠ c) :
    t.Same scene d f (t.reset scene c f) :=
  (spares_reset fun _ hn hin => hne (nested.apart hs hd hc hn hin)).2.2

theorem same_resetAll {cs : List NodeId} {d : NodeId} (hd : d ∈ s.children) (hcs : ∀ c ∈ cs, c ∈ s.children)
    (hnot : d ∉ cs) : t.Same scene d f (t.resetAll scene cs f) := by
  intro n hn
  refine (agree_resetAll fun c hc hin => hnot ?_).1
  rwa [nested.apart hs hd (hcs c hc) hn hin.1]

theorem same_setSelected {d : NodeId} (hd : d ∈ s.children) {i : Option Nat} :
    t.Same scene d f (f.setSelected scene id i) := by
  have hspares : t.Spares scene d f (f.setSelected scene id i) :=
    spares_of_agree rfl fun n hn => Memory.agree_setSelected fun heq =>
      nested.self_not_mem_child hs hd (heq.1 ▸ hn)
  exact hspares.2.2

theorem forgotten_resetAll {cs : List NodeId} (hcs : ∀ c ∈ cs, c ∈ s.children) (hc : c ∈ cs) :
    t.Forgotten scene c (t.resetAll scene cs f) := by
  induction cs generalizing f with
  | nil => cases hc
  | cons c' cs ih =>
      have hcs' : ∀ c ∈ cs, c ∈ s.children := fun c hc => hcs c (List.mem_cons_of_mem c' hc)
      rw [resetAll_cons]
      by_cases hin : c ∈ cs
      · exact ih hcs' hin
      · obtain rfl := (List.mem_cons.mp hc).resolve_right hin
        exact forgotten_reset.same (same_resetAll nested hs (hcs c List.mem_cons_self) hcs' hin)

theorem selected_resetAll {cs : List NodeId} (hcs : ∀ c ∈ cs, c ∈ s.children) :
    (t.resetAll scene cs f).selected scene id = f.selected scene id :=
  (agree_resetAll fun c hc hin => nested.self_not_mem_child hs (hcs c hc) hin.1).selected

theorem selected_reset (hc : c ∈ s.children) : (t.reset scene c f).selected scene id = f.selected scene id :=
  @selected_resetAll _ _ _ _ _ _ nested hs [c] (by simpa using hc)

end Siblings

/-! ## Running all children in some order -/

section Loops

variable (nested : t.Nested) (hs : t.slot? id = some s)
  (within : ∀ c ∈ s.children, ∀ g, t.Within scene c g (run c g).2)

include nested hs within

theorem same_call {d : NodeId} (hd : d ∈ s.children) (hc : c ∈ s.children) (hne : d ≠ c) :
    t.Same scene d f (run c f).2 :=
  ((within c hc f).child nested hs hc).2 d hd hne

omit nested hs within in
theorem map_fst_eachCalls {cs : List NodeId} : (t.eachCalls scene run cs f).map Prod.fst = cs := by
  induction cs generalizing f with
  | nil => rfl
  | cons c cs ih => rw [eachCalls, List.map_cons, ih]

theorem runEach_tidy {cs : List NodeId} {overall : Status} (hcs : ∀ c ∈ cs, c ∈ s.children) (nodup : cs.Nodup) :
    (∀ c ∈ cs, t.Tidy scene run (t.eachCalls scene run cs f) (t.runEach scene run cs overall f).2 c) ∧
      ∀ d ∈ s.children, d ∉ cs → t.Same scene d f (t.runEach scene run cs overall f).2 := by
  induction cs generalizing overall f with
  | nil => exact ⟨nofun, fun _ _ _ _ _ => rfl⟩
  | cons c cs ih =>
      obtain ⟨hc, hcs'⟩ := List.forall_mem_cons.mp hcs
      obtain ⟨hnew, nodup'⟩ := List.nodup_cons.mp nodup
      have hothers : ∀ d ∈ s.children, d ≠ c → t.Same scene d f (t.afterCall scene run c f) := by
        intro d hd hne
        simp only [afterCall]
        split
        · exact same_call nested hs within hd hc hne
        · exact (same_call nested hs within hd hc hne).trans (same_reset nested hs hd hc hne)
      obtain ⟨overall', hrest⟩ := @runEach_cons _ t scene run f c cs overall
      obtain ⟨htidy, hsame⟩ := @ih (t.afterCall scene run c f) overall' hcs' nodup'
      rw [hrest, eachCalls]
      refine ⟨List.forall_mem_cons.mpr ⟨?_, fun d hd => (htidy d hd).cons ?_⟩, fun d hd hnot => ?_⟩
      · refine tidy_cons (fun x hx heq => hnew ?_) (fun hr => ?_) fun hr => ?_
        · have hmem := List.mem_map_of_mem (f := Prod.fst) hx
          rwa [map_fst_eachCalls, heq] at hmem
        · have hafter : t.afterCall scene run c f = (run c f).2 := by rw [afterCall, hr]; rfl
          rw [← hafter]
          exact hsame c hc hnew
        · have hafter : t.afterCall scene run c f = t.reset scene c (run c f).2 :=
            if_neg fun h => hr (Status.isRunning_iff.mp h)
          exact (hafter ▸ forgotten_reset : t.Forgotten scene c (t.afterCall scene run c f)).same (hsame c hc hnew)
      · rintro rfl
        exact hnew hd
      · have hne : d ≠ c := fun heq => hnot (heq ▸ List.mem_cons_self)
        exact (hothers d hd hne).trans (hsame d hd fun hin => hnot (List.mem_cons_of_mem c hin))

/-! ## Trying children -/

omit nested hs within in
theorem Elects.cons (h : Elects scene run id s calls g r) {x : Call χ} (hx : (run x.1 x.2).1 ≠ .running) :
    Elects scene run id s (x :: calls) g r := by
  cases h with
  | nobody result selected none_running =>
      exact .nobody result selected (List.forall_mem_cons.mpr ⟨hx, none_running⟩)
  | child result selected admitted place call running only =>
      refine .child result selected admitted place (List.mem_cons_of_mem x call) running ?_
      exact List.forall_mem_cons.mpr ⟨fun hr => absurd hr hx, only⟩

/-- What trying these children in turn comes to; the ones that were not tried are as they were. -/
structure Scanned (t : BehaviorTree χ) (scene : Scene) (run : Runner χ) (id : NodeId) (s : Slot χ) (cs : List NodeId)
    (f : Frame χ) (calls : List (Call χ)) (r : Status) (untried : List NodeId) (g : Frame χ) : Prop where
  tidy : ∀ c ∈ cs, c ∉ untried → t.Tidy scene run calls g c
  called : ∀ x ∈ calls, x.1 ∈ cs ∧ x.1 ∉ untried
  rest : ∀ c ∈ untried, c ∈ cs
  same : ∀ d ∈ s.children, d ∉ cs → t.Same scene d f g
  elects : (cs = [] → f.selected scene id = none) → Elects scene run id s calls g r
  prevails : r ≠ .cannotExecute ∧ r ≠ .failed

theorem priorityFrom_scanned (hk : s.kind = .prioritySelector) {i : Nat} {cs : List NodeId}
    (hcs : s.children.drop i = cs) :
    t.Scanned scene run id s cs f (t.priorityCalls scene run id cs f) (t.priorityFrom scene run id i cs f).1
      (t.priorityFrom scene run id i cs f).2.1 (t.priorityFrom scene run id i cs f).2.2 := by
  have hadmits {i : Nat} : s.kind.Admits i := by rw [hk]; trivial
  induction cs generalizing i f with
  | nil =>
      refine ⟨List.forall_mem_nil _, List.forall_mem_nil _, List.forall_mem_nil _, fun _ _ _ _ _ => rfl, fun hnone => ?_,
        by simp [priorityFrom]⟩
      exact .nobody (by simp [priorityFrom]) (hnone rfl) (List.forall_mem_nil _)
  | cons c cs ih =>
      obtain ⟨hi, hrest⟩ := drop_eq_cons hcs
      have hc : c ∈ s.children := List.mem_of_getElem? hi
      have nodup : (c :: cs).Nodup := hcs ▸ (nested.nodup hs).sublist (List.drop_sublist _ _)
      have hnew := (List.nodup_cons.mp nodup).1
      have hout {d : NodeId} (hd : d ∉ c :: cs) : d ≠ c ∧ d ∉ cs := not_or.mp (mt List.mem_cons.mpr hd)
      have hsame {d : NodeId} (hd : d ∈ s.children) (hne : d ≠ c) : t.Same scene d f (run c f).2 :=
        same_call nested hs within hd hc hne
      -- the child is the only one that is tried
      have hlast {g : Frame χ} (htidy : t.Tidy scene run [(c, f)] g c) :
          ∀ c' ∈ c :: cs, c' ∉ cs → t.Tidy scene run [(c, f)] g c' := by
        intro c' hc' hnot
        obtain rfl := (List.mem_cons.mp hc').resolve_right hnot
        exact htidy
      have hcalled : ∀ x ∈ [((c, f) : Call χ)], x.1 ∈ c :: cs ∧ x.1 ∉ cs :=
        List.forall_mem_singleton.mpr ⟨List.mem_cons_self, hnew⟩
      have hafter : (cs = [] → ((t.reset scene c (run c f).2).setSelected scene id none).selected scene id = none) :=
        fun _ => Memory.selected_setSelected
      simp only [priorityFrom, priorityCalls]
      cases hr : (run c f).1 with
      | running =>
          refine ⟨hlast (tidy_cons (List.forall_mem_nil _) (fun _ => same_setSelected nested hs hc) (absurd hr)), hcalled,
            fun c' => List.mem_cons_of_mem c, fun d hd hnot => ?_, fun _ => ?_, by simp⟩
          · exact (hsame hd (hout hnot).1).trans (same_setSelected nested hs hd)
          · exact .child rfl Memory.selected_setSelected hadmits hi List.mem_cons_self hr
              (List.forall_mem_singleton.mpr fun _ => rfl)
      | cannotExecute | failed =>
          have scanned := ih (f := (t.reset scene c (run c f).2).setSelected scene id none) hrest
          have hforgotten : t.Forgotten scene c ((t.reset scene c (run c f).2).setSelected scene id none) :=
            forgotten_reset.same (same_setSelected nested hs hc)
          refine ⟨List.forall_mem_cons.mpr ⟨fun _ => ?_, fun c' hc' hnot => ?_⟩,
            List.forall_mem_cons.mpr ⟨⟨List.mem_cons_self, fun hin => hnew (scanned.rest c hin)⟩, fun x hx => ?_⟩,
            fun c' hc' => List.mem_cons_of_mem c (scanned.rest c' hc'), fun d hd hnot => ?_,
            fun _ => (scanned.elects hafter).cons (by simp [hr]), scanned.prevails⟩
          · refine tidy_cons (fun x hx heq => hnew (heq ▸ (scanned.called x hx).1)) (fun h => by simp [hr] at h)
              fun _ => ?_
            exact hforgotten.same (scanned.same c hc hnew)
          · refine (scanned.tidy c' hc' hnot).cons ?_
            rintro rfl
            exact hnew hc'
          · exact (scanned.called x hx).imp_left (List.mem_cons_of_mem c)
          · obtain ⟨hne, hnot⟩ := hout hnot
            refine (hsame hd hne).trans (Same.trans ?_ (scanned.same d hd hnot))
            exact (same_reset nested hs hd hc hne).trans (same_setSelected nested hs hd)
      | unknown | finished | exception =>
          refine ⟨hlast (tidy_cons (List.forall_mem_nil _) (fun h => by simp [hr] at h) fun _ => forgotten_reset), hcalled,
            fun c' => List.mem_cons_of_mem c, fun d hd hnot => ?_, fun _ => ?_, by simp⟩
          · have hne := (hout hnot).1
            refine (hsame hd hne).trans ?_
            exact (same_setSelected nested hs hd).trans (same_reset nested hs hd hc hne)
          · refine .nobody (by simp) ?_ (List.forall_mem_singleton.mpr (by simp [hr]))
            exact (selected_reset nested hs hc).trans Memory.selected_setSelected

end Loops

/-! ## Nodes -/

/-- What a node of a kind that cleans up leaves behind. -/
structure Cleaned (t : BehaviorTree χ) (scene : Scene) (run : Runner χ) (id : NodeId) (s : Slot χ)
    (calls : List (Call χ)) (r : Status) (g : Frame χ) : Prop where
  tidy : ∀ c ∈ s.children, t.Tidy scene run calls g c
  elects : s.kind.Commits → Elects scene run id s calls g r
  prevails : s.kind = .prioritySelector → r ≠ .cannotExecute ∧ r ≠ .failed

theorem Elects.congr (h : Elects scene run id s calls g r) (hsel : g'.selected scene id = g.selected scene id) :
    Elects scene run id s calls g' r := by
  cases h with
  | nobody result selected none_running => exact .nobody result (hsel.trans selected) none_running
  | child result selected admitted place call running only =>
      exact .child result (hsel.trans selected) admitted place call running only

section Nodes

variable (nested : t.Nested) (hs : t.slot? id = some s)
  (within : ∀ c ∈ s.children, ∀ g, t.Within scene c g (run c g).2)

include nested hs within

theorem prioritySelector_cleaned (hk : s.kind = .prioritySelector)
    (committed : t.Committed id s scene.entity f.memory) :
    t.Cleaned scene run id s (t.callsOf scene run id s f) (t.prioritySelector scene run id s.children f).1
      (t.prioritySelector scene run id s.children f).2 := by
  simp only [prioritySelector, callsOf, hk]
  obtain ⟨n, hn⟩ : ∃ n, min ((f.selected scene id).getD 0) s.children.length = n := ⟨_, rfl⟩
  rw [hn]
  have htake : ∀ c ∈ s.children.take n, c ∈ s.children := fun _ hc => List.mem_of_mem_take hc
  have scanned : t.Scanned scene run id s (s.children.drop n) (t.resetAll scene (s.children.take n) f) _ _ _ _ :=
    priorityFrom_scanned nested hs within hk rfl
  have huntried : ∀ c ∈ (t.priorityFrom scene run id n (s.children.drop n)
      (t.resetAll scene (s.children.take n) f)).2.1, c ∈ s.children :=
    fun c hc => List.mem_of_mem_drop (scanned.rest c hc)
  refine ⟨fun c hc => ?_, fun _ => ?_, fun _ => scanned.prevails⟩
  · by_cases hin : c ∈ (t.priorityFrom scene run id n (s.children.drop n)
      (t.resetAll scene (s.children.take n) f)).2.1
    · refine tidy_of_forgotten (forgotten_resetAll nested hs huntried hin) fun x hx heq => ?_
      exact (scanned.called x hx).2 (heq ▸ hin)
    · refine Tidy.same ?_ (same_resetAll nested hs hc huntried hin)
      by_cases hdrop : c ∈ s.children.drop n
      · exact scanned.tidy c hdrop hin
      · -- the children before the remembered one are forgotten first
        have hbefore : c ∈ s.children.take n := by
          rw [← List.take_append_drop n s.children] at hc
          exact (List.mem_append.mp hc).resolve_right hdrop
        refine tidy_of_forgotten ?_ fun x hx heq => hdrop (heq ▸ (scanned.called x hx).1)
        exact (forgotten_resetAll nested hs htake hbefore).same (scanned.same c hc hdrop)
  · refine (scanned.elects fun hnil => ?_).congr (selected_resetAll nested hs huntried)
    rw [selected_resetAll nested hs htake]
    cases hsel : f.selected scene id with
    | none => rfl
    | some i =>
        obtain ⟨-, c, hc⟩ := committed.admitted hsel
        have hlt := (List.getElem?_eq_some_iff.mp hc).1
        rw [hsel, Option.getD_some] at hn
        rw [List.drop_eq_nil_iff] at hnil
        omega

omit nested hs within in
theorem choice?_eq_none_iff {weights : List Float32} {children : List NodeId} :
    choice? scene id weights children = none ↔ ∀ i < children.length, ¬ eligible (weights[i]?.getD 1) := by
  rw [choice?, Generator.chooseWeighted_eq_none_iff]
  simp [weightsFor]

omit nested hs within in
theorem eligible_of_choice? {weights : List Float32} {children : List NodeId} {i : Nat}
    (h : choice? scene id weights children = some i) :
    eligible (weights[i]?.getD 1) ∧ ∃ c, children[i]? = some c := by
  obtain ⟨w, hw, heligible⟩ := Generator.eligible_of_chooseWeighted h
  obtain ⟨hlt, hw⟩ := List.getElem?_eq_some_iff.mp hw
  simp only [weightsFor, List.length_map, List.length_range] at hlt
  simp only [weightsFor, List.getElem_map, List.getElem_range] at hw
  rw [hw]
  exact ⟨heligible, _, List.getElem?_eq_getElem hlt⟩

omit nested hs within in
theorem resumable?_eq_some_iff {children : List NodeId} {i : Nat} :
    resumable? scene id children f = some i ↔
      f.selected scene id = some i ∧ ∃ c, children[i]? = some c ∧ f.status scene c = .running := by
  rw [resumable?, Option.filter_eq_some_iff]
  refine and_congr_right fun _ => ?_
  cases children[i]? with
  | none => simp
  | some c => simp [Status.isRunning_iff]

omit nested hs within in
/-- The index that is resumed or chosen is that of a child that can be chosen. -/
theorem admits_chosen {weights : List Float32} (hk : s.kind = .probabilitySelector weights)
    (committed : t.Committed id s scene.entity f.memory) {i : Nat}
    (h : (resumable? scene id s.children f).or (choice? scene id weights s.children) = some i) :
    s.kind.Admits i ∧ ∃ c, s.children[i]? = some c := by
  rcases Option.or_eq_some_iff.mp h with hresumed | ⟨-, hchosen⟩
  · exact committed.admitted (resumable?_eq_some_iff.mp hresumed).1
  · rw [hk]
    exact eligible_of_choice? hchosen

theorem probabilitySelector_cleaned {weights : List Float32} (hk : s.kind = .probabilitySelector weights)
    (committed : t.Committed id s scene.entity f.memory) :
    t.Cleaned scene run id s (t.callsOf scene run id s f)
      (t.probabilitySelector scene run id weights s.children f).1
      (t.probabilitySelector scene run id weights s.children f).2 := by
  have hnever {r : Status} : s.kind = .prioritySelector → r ≠ .cannotExecute ∧ r ≠ .failed := by simp [hk]
  simp only [probabilitySelector, callsOf, hk, chosenCalls]
  cases hchosen : (resumable? scene id s.children f).or (choice? scene id weights s.children) with
  | none =>
      -- a remembered child could be chosen
      have hselected : f.selected scene id = none := by
        cases hsel : f.selected scene id with
        | none => rfl
        | some i =>
            obtain ⟨hadmits, c, hc⟩ := committed.admitted hsel
            rw [hk, NodeKind.Admits] at hadmits
            have hnone := choice?_eq_none_iff.mp (Option.or_eq_none_iff.mp hchosen).2
            exact absurd hadmits (hnone i (List.getElem?_eq_some_iff.mp hc).1)
      refine ⟨fun c hc => tidy_of_forgotten (committed.others hc fun i hi => ?_) (List.forall_mem_nil _), fun _ => ?_, hnever⟩
      · cases hselected.symm.trans hi
      · exact .nobody (by simp) hselected (List.forall_mem_nil _)
  | some i =>
      obtain ⟨hadmits, c, hi⟩ := admits_chosen hk committed hchosen
      have hc := List.mem_of_getElem? hi
      have herase : ∀ c ∈ s.children.eraseIdx i, c ∈ s.children := fun _ hc => List.mem_of_mem_eraseIdx hc
      simp only [hi, Option.map_some, Option.toList_some]
      obtain ⟨f₁, hf₁⟩ : ∃ f₁, t.resetAll scene (s.children.eraseIdx i) f = f₁ := ⟨_, rfl⟩
      rw [hf₁]
      have hothers : ∀ d ∈ s.children, d ≠ c → t.Forgotten scene d (run c f₁).2 := by
        intro d hd hne
        have hin : d ∈ s.children.eraseIdx i := by
          obtain ⟨j, hj⟩ := List.getElem?_of_mem hd
          exact List.mem_eraseIdx_iff_getElem?.mpr ⟨j, fun h => hne (by simpa [h, hi] using hj.symm), hj⟩
        exact (hf₁ ▸ forgotten_resetAll nested hs herase hin : t.Forgotten scene d f₁).same
          (same_call nested hs within hd hc hne)
      have hnot {d : NodeId} (hne : d ≠ c) : ∀ x ∈ [((c, f₁) : Call χ)], x.1 ≠ d :=
        List.forall_mem_singleton.mpr hne.symm
      by_cases hr : (run c f₁).1 = .running
      · rw [if_pos (Status.isRunning_iff.mpr hr)]
        refine ⟨fun d hd => ?_, fun _ => ?_, hnever⟩
        · by_cases heq : d = c
          · subst heq
            exact tidy_cons (List.forall_mem_nil _) (fun _ => same_setSelected nested hs hc) (absurd hr)
          · exact tidy_of_forgotten ((hothers d hd heq).same (same_setSelected nested hs hd)) (hnot heq)
        · exact .child hr Memory.selected_setSelected (hk ▸ hadmits) hi List.mem_cons_self hr
            (List.forall_mem_singleton.mpr fun _ => rfl)
      · rw [if_neg fun h => hr (Status.isRunning_iff.mp h)]
        refine ⟨fun d hd => ?_, fun _ => ?_, hnever⟩
        · by_cases heq : d = c
          · subst heq
            exact tidy_cons (List.forall_mem_nil _) (fun h => absurd h hr) fun _ => forgotten_reset
          · refine tidy_of_forgotten ((hothers d hd heq).same ?_) (hnot heq)
            exact (same_setSelected nested hs hd).trans (same_reset nested hs hd hc heq)
        · refine .nobody hr ?_ (List.forall_mem_singleton.mpr hr)
          exact (selected_reset nested hs hc).trans Memory.selected_setSelected

omit nested hs within in
theorem parallelFrom_fst {cs : List NodeId} {running : Bool} :
    (t.parallelFrom scene run cs running f).1 =
      (running || (t.eachCalls scene run cs f).any fun x => (run x.1 x.2).1.isRunning) := by
  induction cs generalizing running f with
  | nil => simp [parallelFrom, eachCalls]
  | cons c cs ih =>
      simp only [parallelFrom, eachCalls, afterCall, List.any_cons]
      split
      · next hr => simp [ih, hr]
      · next hr => simp [ih, hr]

theorem parallel_cleaned (hk : s.kind = .parallel) :
    t.Cleaned scene run id s (t.callsOf scene run id s f) (t.parallel scene run id s.children f).1
      (t.parallel scene run id s.children f).2 := by
  have hnodup := nested.nodup hs
  have htidy : ∀ c ∈ s.children, t.Tidy scene run (t.eachCalls scene run s.children f)
      (t.parallelFrom scene run s.children false f).2 c := by
    rw [parallelFrom_eq]
    exact (@runEach_tidy _ t scene run id s f nested hs within _ .finished (fun _ hc => hc) hnodup).1
  have hrunning := @parallelFrom_fst _ t scene run f s.children false
  simp only [parallel, callsOf, hk]
  rcases hp : t.parallelFrom scene run s.children false f with ⟨running, g⟩
  rw [hp] at htidy hrunning
  cases running with
  | true => exact ⟨htidy, by simp [hk, NodeKind.Commits], by simp [hk]⟩
  | false =>
      refine ⟨fun c hc => ⟨fun {h} hcall hr => ?_, fun _ n hn => ?_⟩, by simp [hk, NodeKind.Commits], by simp [hk]⟩
      · have hnone : ∀ x ∈ t.eachCalls scene run s.children f, ¬ (run x.1 x.2).1.isRunning := by
          simpa using hrunning.symm
        exact absurd (Status.isRunning_iff.mpr hr) (hnone _ hcall)
      · dsimp only
        rw [memory_resetBelow, get?_resetState, if_pos ⟨(nested.below hs hc hn).2, rfl⟩]

theorem randomSelector_cleaned (hk : s.kind = .randomSelector) :
    t.Cleaned scene run id s (t.callsOf scene run id s f) (t.randomSelector scene run id s.children f).1
      (t.randomSelector scene run id s.children f).2 := by
  have perm := (scene.tick.generator scene.entity (UInt64.ofNat id)).shuffle_perm s.children
  simp only [randomSelector, callsOf, hk]
  refine ⟨fun c hc => ?_, by simp [hk, NodeKind.Commits], by simp [hk]⟩
  exact (runEach_tidy nested hs within (fun _ hc => perm.mem_iff.mp hc) (perm.nodup_iff.mpr (nested.nodup hs))).1 c
    (perm.mem_iff.mpr hc)

theorem perform_cleaned (hk : s.kind.Cleans) (committed : s.kind.Commits → t.Committed id s scene.entity f.memory) :
    t.Cleaned scene run id s (t.callsOf scene run id s f) (t.perform scene run id s f).1
      (t.perform scene run id s f).2 := by
  cases hkind : s.kind with
  | prioritySelector =>
      simp only [perform, hkind]
      exact prioritySelector_cleaned nested hs within hkind (committed (by rw [hkind]; trivial))
  | probabilitySelector weights =>
      simp only [perform, hkind]
      exact probabilitySelector_cleaned nested hs within hkind (committed (by rw [hkind]; trivial))
  | randomSelector =>
      simp only [perform, hkind]
      exact randomSelector_cleaned nested hs within hkind
  | parallel =>
      simp only [perform, hkind]
      exact parallel_cleaned nested hs within hkind
  | sequence | invert | succeed | fail | limit | task => simp [hkind, NodeKind.Cleans] at hk

end Nodes

/-! ## What is left between executions -/

theorem committed_of_forgotten {e : EntityId} {m : Memory} (nested : t.Nested) (hs : t.slot? id = some s)
    (h : ∀ n ∈ t.subtree id, m.get? n e = none) : t.Committed id s e m where
  admitted hsel := by simp [Memory.selected_of_none (h id (nested.mem_self hs))] at hsel
  others hc _ n hn := h n (nested.below hs hc hn).2

theorem Committed.congr {e : EntityId} {m m' : Memory} (nested : t.Nested) (hs : t.slot? id = some s)
    (h : t.Committed id s e m) (hselected : m'.selected id e = m.selected id e)
    (hbelow : ∀ n ∈ t.subtree id, n ≠ id → m'.get? n e = m.get? n e) : t.Committed id s e m' where
  admitted hsel := h.admitted (hselected.symm.trans hsel)
  others {c} hc hnot n hn := by
    have hne : n ≠ id := fun heq => nested.self_not_mem_child hs hc (heq ▸ hn)
    exact (hbelow n (nested.below hs hc hn).2 hne).trans
      (h.others hc (fun i hi => hnot i (hselected.trans hi)) n hn)

theorem Committed.misses (nested : t.Nested) (hs : t.slot? id = some s) (h : t.Committed id s scene.entity f.memory)
    (misses : t.Misses scene id f g) : t.Committed id s scene.entity g.memory := by
  cases misses.2.2 with
  | inl same =>
      exact h.congr nested hs (Memory.selected_congr (same id (nested.mem_self hs))) fun n hn _ => same n hn
  | inr forgotten => exact committed_of_forgotten nested hs forgotten

theorem Cleaned.committed (h : t.Cleaned scene run id s calls r g) (hk : s.kind.Commits) :
    t.Committed id s scene.entity g.memory := by
  cases h.elects hk with
  | nobody _ selected none_running =>
      refine ⟨fun {i} hi => absurd (selected.symm.trans hi) nofun, fun {c} hc _ => ?_⟩
      exact (h.tidy c hc).forgotten fun h' hcall => none_running _ hcall
  | @child i c h' _ selected admitted place call running only =>
      refine ⟨fun {j} hj => ?_, fun {d} hd hnot => (h.tidy d hd).forgotten fun h'' hcall hr => ?_⟩
      · obtain rfl : i = j := Option.some.inj (selected.symm.trans hj)
        exact ⟨admitted, c, place⟩
      · have heq : d = c := only _ hcall hr
        exact hnot i selected (heq ▸ place)

/-! ## Executions -/

theorem Cleaned.congr (nested : t.Nested) (hs : t.slot? id = some s) (h : t.Cleaned scene run id s calls r g)
    (hselected : g'.selected scene id = g.selected scene id)
    (hbelow : ∀ n, n ≠ id → g'.memory.get? n scene.entity = g.memory.get? n scene.entity) :
    t.Cleaned scene run id s calls r g' where
  tidy c hc := (h.tidy c hc).same fun n hn => hbelow n fun heq => nested.self_not_mem_child hs hc (heq ▸ hn)
  elects hk := (h.elects hk).congr hselected
  prevails := h.prevails

variable [Character χ]

theorem Nested.cleaned_execute (nested : t.Nested) (hs : t.slot? id = some s) (hk : s.kind.Cleans)
    (committed : s.kind.Commits → t.Committed id s scene.entity f.memory) (allowed : (judge scene id s f).1 = true) :
    t.Cleaned scene (t.execute scene) id s (t.callsIn scene id s f) (t.execute scene id f).1
      (t.execute scene id f).2 := by
  have hattempt : t.attempt scene (t.execute scene) id s f =
      t.perform scene (t.execute scene) id s (judge scene id s f).2 := by
    simp [attempt, allowed]
  have within : ∀ c ∈ s.children, ∀ g, t.Within scene c g (t.execute scene c g).2 :=
    fun c _ g => nested.within_execute c g
  have hcleaned := perform_cleaned (f := (judge scene id s f).2) nested hs within hk
    fun hk => (committed hk).congr nested hs agree_judge.selected fun _ _ _ => agree_judge.1
  rw [← hattempt] at hcleaned
  rw [nested.execute_of_slot hs, callsIn, if_pos allowed]
  exact hcleaned.congr nested hs selected_visit fun n hne => get?_visit hne

/-- An execution that the guard refuses changes nothing but the record of the node, and there not the selection. -/
theorem Nested.selected_of_refused (nested : t.Nested) (hs : t.slot? id = some s)
    (refused : (judge scene id s f).1 = false) :
    (t.execute scene id f).2.selected scene id = f.selected scene id ∧
      ∀ n, n ≠ id → (t.execute scene id f).2.memory.get? n scene.entity = f.memory.get? n scene.entity := by
  obtain ⟨-, hmemory⟩ := nested.execute_of_refused hs refused
  refine ⟨?_, fun n hne => ?_⟩
  · rw [Frame.selected, Memory.selected, hmemory, Memory.getD_update_self]
    rfl
  · rw [hmemory, Memory.get?_update_of_ne fun h => hne h.1]
    rfl

/-- Whatever becomes of an execution of a selector, nothing is remembered of its children but of the selected one. -/
theorem Nested.committed_execute (nested : t.Nested) (hs : t.slot? id = some s) (hk : s.kind.Commits)
    (committed : t.Committed id s scene.entity f.memory) :
    t.Committed id s scene.entity (t.execute scene id f).2.memory := by
  cases hallowed : (judge scene id s f).1 with
  | true => exact (nested.cleaned_execute hs hk.cleans (fun _ => committed) hallowed).committed hk
  | false =>
      obtain ⟨hselected, hbelow⟩ := nested.selected_of_refused hs hallowed
      exact committed.congr nested hs hselected fun n _ => hbelow n

/-- How a run of a node that cleans up leaves its children: forgotten, unless they answered that they are running. -/
structure Neat (t : BehaviorTree χ) (scene : Scene) (id : NodeId) (s : Slot χ) (f : Frame χ) : Prop where
  forgotten {c : NodeId} : c ∈ s.children →
    (∀ h, (c, h) ∈ t.callsIn scene id s f → (t.execute scene c h).1 ≠ .running) →
    t.Forgotten scene c (t.execute scene id f).2
  kept {c : NodeId} {h : Frame χ} : (c, h) ∈ t.callsIn scene id s f → (t.execute scene c h).1 = .running →
    t.Same scene c (t.execute scene c h).2 (t.execute scene id f).2
  /-- A selection stands for being left running, and for the one child that is. -/
  selected : s.kind.Commits →
    (((t.execute scene id f).2.selected scene id).isSome ↔ (t.execute scene id f).1 = .running)
  selected_child {i : Nat} : s.kind.Commits → (t.execute scene id f).2.selected scene id = some i →
    ∃ c, s.children[i]? = some c ∧
      ∀ d ∈ s.children, (t.execute scene id f).2.status scene d = .running ↔ d = c
  prevails : s.kind = .prioritySelector →
    (t.execute scene id f).1 ≠ .cannotExecute ∧ (t.execute scene id f).1 ≠ .failed

theorem Nested.status_execute (nested : t.Nested) (hs : t.slot? id = some s) (f : Frame χ) :
    (t.execute scene id f).2.status scene id = (t.execute scene id f).1 := by
  rw [nested.execute_of_slot hs, status_visit]

theorem Nested.neat_execute (nested : t.Nested) (hs : t.slot? id = some s) (hk : s.kind.Cleans)
    (committed : s.kind.Commits → t.Committed id s scene.entity f.memory) (allowed : (judge scene id s f).1 = true) :
    t.Neat scene id s f := by
  have cleaned := nested.cleaned_execute hs hk committed allowed
  refine ⟨fun {c} hc => (cleaned.tidy c hc).forgotten, fun {c h} hcall hr => ?_, fun hk' => ?_, fun {i} hk' hi => ?_,
    cleaned.prevails⟩
  · exact (cleaned.tidy c (callsIn_acts (nested.nodup hs) _ hcall).1).kept hcall hr
  · cases cleaned.elects hk' with
    | nobody result selected => simp [result, selected]
    | child result selected => simp [result, selected]
  · cases cleaned.elects hk' with
    | nobody _ selected => exact absurd (selected.symm.trans hi) nofun
    | @child j c h _ selected _ place call running only =>
        obtain rfl : j = i := Option.some.inj (selected.symm.trans hi)
        refine ⟨c, place, fun d hd => ?_⟩
        obtain ⟨sd, hsd⟩ := nested.exists_slot hs hd
        rw [(cleaned.tidy d hd).running_iff (nested.mem_self hsd) (nested.status_execute hsd)]
        constructor
        · rintro ⟨h', hcall, hr⟩
          exact only _ hcall hr
        · rintro rfl
          exact ⟨h, call, running⟩

/-! ## Which children a selector calls -/

omit [Character χ] in
theorem isPrefix_priorityCalls {cs : List NodeId} : (t.priorityCalls scene run id cs f).map Prod.fst <+: cs := by
  induction cs generalizing f with
  | nil => exact List.prefix_rfl
  | cons c cs ih =>
      rw [priorityCalls, List.map_cons, List.cons_prefix_cons]
      refine ⟨rfl, ?_⟩
      split
      · exact ih
      · exact List.nil_prefix

/-- A selector that has a child selected which is running calls that child first; none before it if it goes by
priority, and none besides it if it goes by weight. -/
theorem calls_of_selected {i : Nat} (nodup : s.children.Nodup) (hk : s.kind.Commits)
    (allowed : (judge scene id s f).1 = true) (hselected : f.selected scene id = some i)
    (hi : s.children[i]? = some c) (hstatus : f.status scene c = .running) :
    ((t.callsIn scene id s f).map Prod.fst).head? = some c ∧
      (s.kind = .prioritySelector → ∀ d ∈ s.children.take i, d ∉ (t.callsIn scene id s f).map Prod.fst) ∧
      ∀ weights, s.kind = .probabilitySelector weights → (t.callsIn scene id s f).map Prod.fst = [c] := by
  have hlt := (List.getElem?_eq_some_iff.mp hi).1
  have hselected : (judge scene id s f).2.selected scene id = some i := hselected
  have hstatus : (judge scene id s f).2.status scene c = .running := hstatus
  rw [callsIn, if_pos allowed]
  cases hkind : s.kind with
  | prioritySelector =>
      have hmin : min i s.children.length = i := Nat.min_eq_left (Nat.le_of_lt hlt)
      have hdrop : s.children.drop i = c :: s.children.drop (i + 1) := by
        rw [List.drop_eq_getElem_cons hlt, (List.getElem?_eq_some_iff.mp hi).2]
      simp only [callsOf, hkind, hselected, Option.getD_some, hmin]
      refine ⟨by rw [hdrop, priorityCalls, List.map_cons, List.head?_cons], fun _ d hd hin => ?_, fun weights h => ?_⟩
      · exact not_mem_take nodup (isPrefix_priorityCalls.subset hin) hd
      · cases h
  | probabilitySelector weights =>
      have hresumed : resumable? scene id s.children (judge scene id s f).2 = some i :=
        resumable?_eq_some_iff.mpr ⟨hselected, c, hi, hstatus⟩
      simp [callsOf, hkind, chosenCalls, hresumed, hi]
  | sequence | randomSelector | parallel | invert | succeed | fail | limit | task =>
      simp [hkind, NodeKind.Commits] at hk

section Weights

variable {weights : List Float32} (hk : s.kind = .probabilitySelector weights)

include hk

/-- A selector by weight calls a child only that can be chosen. -/
theorem eligible_of_call (committed : t.Committed id s scene.entity f.memory) {x : Call χ}
    (hx : x ∈ t.callsIn scene id s f) : ∃ i : Nat, s.children[i]? = some x.1 ∧ eligible (weights[i]?.getD 1) := by
  have hselected : (judge scene id s f).2.selected scene id = f.selected scene id := rfl
  rw [callsIn] at hx
  split at hx
  · simp only [callsOf, hk, chosenCalls] at hx
    split at hx
    · cases hx
    · next i hchosen =>
      obtain ⟨c, hc, rfl⟩ := Option.map_eq_some_iff.mp (Option.mem_toList.mp hx)
      refine ⟨i, hc, ?_⟩
      rcases Option.or_eq_some_iff.mp hchosen with hresumed | ⟨-, hchosen⟩
      · have hadmits := (committed.admitted (hselected.symm.trans (resumable?_eq_some_iff.mp hresumed).1)).1
        rwa [hk] at hadmits
      · exact (eligible_of_choice? hchosen).1
  · cases hx

/-- A selector by weight that runs fails without a call exactly if it has nothing to resume and nothing to choose. -/
theorem Nested.no_calls_iff (nested : t.Nested) (hs : t.slot? id = some s) (allowed : (judge scene id s f).1 = true) :
    ((t.execute scene id f).1 = .failed ∧ t.callsIn scene id s f = []) ↔
      (∀ i c, f.selected scene id = some i → s.children[i]? = some c → f.status scene c ≠ .running) ∧
        ∀ i < s.children.length, ¬ eligible (weights[i]?.getD 1) := by
  have hresumed : resumable? scene id s.children (judge scene id s f).2 = none ↔
      ∀ i c, f.selected scene id = some i → s.children[i]? = some c → f.status scene c ≠ .running := by
    rw [Option.eq_none_iff_forall_ne_some]
    refine forall_congr' fun i => ?_
    rw [ne_eq, resumable?_eq_some_iff]
    constructor
    · exact fun h c hsel hc hr => h ⟨hsel, c, hc, hr⟩
    · exact fun h ⟨hsel, c, hc, hr⟩ => h c hsel hc hr
  have hchoice : choice? scene id weights s.children = none ↔
      ∀ i < s.children.length, ¬ eligible (weights[i]?.getD 1) := choice?_eq_none_iff
  rw [← hresumed, ← hchoice, ← Option.or_eq_none_iff]
  have hexecute : (t.execute scene id f).1 =
      (t.probabilitySelector scene (t.execute scene) id weights s.children (judge scene id s f).2).1 := by
    simp [nested.execute_of_slot hs, visit, attempt, allowed, perform, hk]
  have hcalls : t.callsIn scene id s f = t.chosenCalls scene id weights s.children (judge scene id s f).2 := by
    simp [callsIn, allowed, callsOf, hk]
  rw [hexecute, hcalls]
  constructor
  · rintro ⟨-, hnil⟩
    refine Option.eq_none_iff_forall_ne_some.mpr fun i hchosen => ?_
    obtain ⟨c, hc⟩ : ∃ c, s.children[i]? = some c := by
      rcases Option.or_eq_some_iff.mp hchosen with h | ⟨-, h⟩
      · obtain ⟨-, c, hc, -⟩ := resumable?_eq_some_iff.mp h
        exact ⟨c, hc⟩
      · exact (eligible_of_choice? h).2
    simp [chosenCalls, hchosen, hc] at hnil
  · intro hnone
    simp [probabilitySelector, chosenCalls, hnone]

end Weights

end BehaviorTree

end Behavior
