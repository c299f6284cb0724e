import Behavior.Proofs.Agent.Operation
import Behavior.Proofs.Tree.Locality
/-!
# Every node once

An execution of a tree executes every node at most once, and only below a parent whose guard held. Which of its
children a node executes, and in which order, depends on its kind (`NodeKind.Tries`). Main statement:
`Agent.orderly_update`.
-/

namespace Behavior

variable {χ : Type}

/-! ## What the steps tell of executions -/

namespace Step

def executed? : Step χ → Option NodeId
  | .began n _ => some n
  | _ => none

def called? : Step χ → Option NodeId
  | .called context .. => some context.node
  | _ => none

/-- The nodes that are executed, in order. -/
def executed (steps : List (Step χ)) : List NodeId := steps.filterMap executed?

/-- The leaves that are called, in order. -/
def calls (steps : List (Step χ)) : List NodeId := steps.filterMap called?

/-- The nodes among these that are executed, in order. -/
def tried (children : List NodeId) (steps : List (Step χ)) : List NodeId :=
  (executed steps).filter (· ∈ children)

variable {steps new : List (Step χ)} {children : List NodeId} {s : Step χ} {n : NodeId}

@[simp] theorem executed_nil : executed ([] : List (Step χ)) = [] := rfl

@[simp] theorem executed_append : executed (steps ++ new) = executed steps ++ executed new :=
  List.filterMap_append

@[simp] theorem executed_began {allowed : Bool} : executed (.began n allowed :: steps) = n :: executed steps := rfl

@[simp] theorem executed_ended {status : Status} : executed (.ended n status :: steps) = executed steps := rfl

@[simp] theorem executed_called {context : TaskContext} {character : χ} {timer board} :
    executed (.called context character timer board :: steps) = executed steps := rfl

@[simp] theorem calls_began {allowed : Bool} : calls (.began n allowed :: steps) = calls steps := rfl

@[simp] theorem calls_ended {status : Status} : calls (.ended n status :: steps) = calls steps := rfl

@[simp] theorem calls_nil : calls ([] : List (Step χ)) = [] := rfl

@[simp] theorem calls_append : calls (steps ++ new) = calls steps ++ calls new := List.filterMap_append

@[simp] theorem tried_append : tried children (steps ++ new) = tried children steps ++ tried children new := by
  simp [tried]

theorem mem_executed : n ∈ executed steps ↔ ∃ allowed, .began n allowed ∈ steps := by
  simp only [executed, List.mem_filterMap]
  constructor
  · rintro ⟨s, hs, hn⟩
    cases s with
    | began m allowed => exact ⟨allowed, Option.some.inj hn ▸ hs⟩
    | called | ended => cases hn
  · rintro ⟨allowed, hs⟩
    exact ⟨_, hs, rfl⟩

theorem mem_executed_of_began {allowed : Bool} (h : .began n allowed ∈ steps) : n ∈ executed steps :=
  mem_executed.mpr ⟨allowed, h⟩

theorem forall_executed {P : NodeId → Prop} (h : ∀ s ∈ steps, P s.node) : ∀ n ∈ executed steps, P n := by
  intro n hn
  obtain ⟨allowed, hs⟩ := mem_executed.mp hn
  exact h _ hs

theorem tried_eq_nil (h : ∀ n ∈ executed steps, n ∉ children) : tried children steps = [] := by
  simpa [tried] using h

end Step

open Step

/-- The children that a node of this kind executes when it runs, in order, if it resumes at the child with the
index `start`. -/
def NodeKind.Tries (start : Nat) (children tried : List NodeId) : NodeKind χ → Prop
  | .sequence | .prioritySelector => tried <+: children.drop start ∧ (tried = [] → children.drop start = [])
  | .probabilitySelector _ => tried.length ≤ 1
  | .randomSelector => tried.Perm children
  | .parallel => tried = children
  | .invert | .succeed | .fail | .limit _ => tried <+: children.take 1
  | .task _ => tried = []

namespace BehaviorTree

variable {t : BehaviorTree χ} {scene : Scene} {run : Runner χ} {id : Nat} {s : Slot χ} {children : List NodeId}
  {f g : Frame χ}

/-! ## The children that a node executes -/

section Children

variable (hrun : ∀ c ∈ children, ∀ g, tried children (run c g).2.steps = tried children g.steps ++ [c])

include hrun

theorem tried_sequenceFrom {i cs last} (hcs : ∀ c ∈ cs, c ∈ children) :
    ∃ ts, ts <+: cs ∧ (ts = [] → cs = []) ∧
      tried children (t.sequenceFrom scene run id i cs last f).2.steps = tried children f.steps ++ ts := by
  induction cs generalizing i last f with
  | nil => exact ⟨[], List.prefix_rfl, fun _ => rfl, by simp [sequenceFrom]⟩
  | cons c cs ih =>
      have hc := hrun c (hcs c (by simp)) f
      simp only [sequenceFrom]
      rcases hr : run c f with ⟨status, g⟩
      rw [hr] at hc
      dsimp only at hc ⊢
      have hlast : [c] <+: c :: cs := ⟨cs, rfl⟩
      cases status with
      | running => exact ⟨[c], hlast, by simp, by simpa using hc⟩
      | cannotExecute | failed => exact ⟨[c], hlast, by simp, by simpa using hc⟩
      | exception => exact ⟨[c], hlast, by simp, hc⟩
      | unknown | finished =>
          obtain ⟨ts, hts, -, htried⟩ := ih fun c' hc' => hcs c' (by simp [hc'])
          refine ⟨c :: ts, List.cons_prefix_cons.mpr ⟨rfl, hts⟩, by simp, ?_⟩
          rw [htried, hc, List.append_assoc, List.singleton_append]

theorem tried_priorityFrom {i cs} (hcs : ∀ c ∈ cs, c ∈ children) :
    ∃ ts, ts <+: cs ∧ (ts = [] → cs = []) ∧
      tried children (t.priorityFrom scene run id i cs f).2.2.steps = tried children f.steps ++ ts := by
  induction cs generalizing i f with
  | nil => exact ⟨[], List.prefix_rfl, fun _ => rfl, by simp [priorityFrom]⟩
  | cons c cs ih =>
      have hc := hrun c (hcs c (by simp)) f
      simp only [priorityFrom]
      rcases hr : run c f with ⟨status, g⟩
      rw [hr] at hc
      dsimp only at hc ⊢
      have hlast : [c] <+: c :: cs := ⟨cs, rfl⟩
      cases status with
      | running => exact ⟨[c], hlast, by simp, by simpa using hc⟩
      | unknown | finished | exception => exact ⟨[c], hlast, by simp, by simpa using hc⟩
      | cannotExecute | failed =>
          obtain ⟨ts, hts, -, htried⟩ :=
            @ih ((t.reset scene c g).setSelected scene id none) (i + 1) fun c' hc' => hcs c' (by simp [hc'])
          refine ⟨c :: ts, List.cons_prefix_cons.mpr ⟨rfl, hts⟩, by simp, ?_⟩
          rw [htried, Frame.steps_setSelected, steps_reset, hc, List.append_assoc, List.singleton_append]

theorem tried_runEach {cs overall} (hcs : ∀ c ∈ cs, c ∈ children) :
    tried children (t.runEach scene run cs overall f).2.steps = tried children f.steps ++ cs := by
  induction cs generalizing overall f with
  | nil => simp [runEach]
  | cons c cs ih =>
      have hc := hrun c (hcs c (by simp)) f
      have ih {overall f} := @ih f overall fun c' hc' => hcs c' (by simp [hc'])
      simp only [runEach]
      split <;> simp [ih, hc]

theorem tried_parallelFrom {cs running} (hcs : ∀ c ∈ cs, c ∈ children) :
    tried children (t.parallelFrom scene run cs running f).2.steps = tried children f.steps ++ cs := by
  induction cs generalizing running f with
  | nil => simp [parallelFrom]
  | cons c cs ih =>
      have hc := hrun c (hcs c (by simp)) f
      have ih {running f} := @ih f running fun c' hc' => hcs c' (by simp [hc'])
      simp only [parallelFrom]
      split <;> simp [ih, hc]

theorem tried_probabilitySelector {weights} :
    ∃ ts, ts.length ≤ 1 ∧ tried children (t.probabilitySelector scene run id weights children f).2.steps =
      tried children f.steps ++ ts := by
  simp only [probabilitySelector]
  split
  · exact ⟨[], by simp, by simp⟩
  · next chosen _ =>
      cases hchosen : children[chosen]? with
      | none => exact ⟨[], by simp, by simp⟩
      | some c =>
          have hc := hrun c (List.mem_of_getElem? hchosen) (t.resetAll scene (children.eraseIdx chosen) f)
          refine ⟨[c], by simp, ?_⟩
          dsimp only
          split <;> simp [hc]

theorem tried_decorate {map : Status → Status} :
    ∃ ts, ts <+: children.take 1 ∧
      tried children (decorate run map children f).2.steps = tried children f.steps ++ ts := by
  cases hchildren : children with
  | nil => exact ⟨[], List.prefix_rfl, by simp [decorate]⟩
  | cons c cs =>
      have hc := hrun c (by simp [hchildren]) f
      rw [hchildren] at hc
      exact ⟨[c], List.prefix_rfl, hc⟩

theorem tried_limit {amount : UInt32} :
    ∃ ts, ts <+: children.take 1 ∧
      tried children (limit scene run id amount children f).2.steps = tried children f.steps ++ ts := by
  cases hchildren : children with
  | nil => exact ⟨[], List.prefix_rfl, by simp [limit]⟩
  | cons c cs =>
      have hc := hrun c (by simp [hchildren]) f
      rw [hchildren] at hc
      simp only [limit, List.head?_cons]
      split
      · exact ⟨[], List.nil_prefix, by simp⟩
      · refine ⟨[c], List.prefix_rfl, ?_⟩
        dsimp only
        split <;> simp [hc]

end Children

/-- A node executes the children that its kind asks for. -/
theorem tried_perform
    (hrun : ∀ c ∈ s.children, ∀ g, tried s.children (run c g).2.steps = tried s.children g.steps ++ [c]) :
    ∃ ts, s.kind.Tries ((f.selected scene id).getD 0) s.children ts ∧
      tried s.children (t.perform scene run id s f).2.steps = tried s.children f.steps ++ ts := by
  have hdrop (i : Nat) : ∀ c ∈ s.children.drop i, c ∈ s.children := fun _ hc => List.mem_of_mem_drop hc
  cases hk : s.kind with
  | sequence =>
      simp only [perform, hk, NodeKind.Tries, sequence]
      obtain ⟨ts, hts, hnil, htried⟩ := tried_sequenceFrom hrun (hdrop _)
      exact ⟨ts, ⟨hts, hnil⟩, htried⟩
  | prioritySelector =>
      -- an index past the end is as good as the end
      have hmin : s.children.drop (min ((f.selected scene id).getD 0) s.children.length) =
          s.children.drop ((f.selected scene id).getD 0) := by
        rcases Nat.le_total ((f.selected scene id).getD 0) s.children.length with hle | hle
        · rw [Nat.min_eq_left hle]
        · rw [Nat.min_eq_right hle, List.drop_length, List.drop_eq_nil_of_le hle]
      simp only [perform, hk, NodeKind.Tries, prioritySelector, hmin]
      obtain ⟨ts, hts, hnil, htried⟩ := tried_priorityFrom hrun (hdrop _)
      exact ⟨ts, ⟨hts, hnil⟩, by rw [steps_resetAll, htried, steps_resetAll]⟩
  | probabilitySelector weights =>
      simp only [perform, hk, NodeKind.Tries]
      exact tried_probabilitySelector hrun
  | randomSelector =>
      have hperm := (scene.tick.generator scene.entity (UInt64.ofNat id)).shuffle_perm s.children
      simp only [perform, hk, NodeKind.Tries, randomSelector]
      exact ⟨_, hperm, tried_runEach hrun fun c hc => hperm.mem_iff.mp hc⟩
  | parallel =>
      have hall : tried s.children (t.parallelFrom scene run s.children false f).2.steps =
          tried s.children f.steps ++ s.children := tried_parallelFrom hrun fun c hc => hc
      refine ⟨s.children, rfl, ?_⟩
      simp only [perform, hk, parallel]
      split <;> next hp => rw [hp] at hall; simpa using hall
  | invert | succeed | fail =>
      simp only [perform, hk, NodeKind.Tries]
      exact tried_decorate hrun
  | limit amount =>
      simp only [perform, hk, NodeKind.Tries]
      exact tried_limit hrun
  | task task =>
      refine ⟨[], rfl, ?_⟩
      simp [perform, hk, steps_runTask, tried]

/-! ## Order below a node -/

/-- Each node is executed at most once, and below one of these or a node that ran; of the children of a node that
ran those are executed that its kind asks for; and only what is executed is called. -/
structure Orderly (t : BehaviorTree χ) (m : Memory) (e : EntityId) (tops : List NodeId) (steps : List (Step χ)) :
    Prop where
  once : (executed steps).Nodup
  parent {n : Nat} : n ∈ executed steps →
    n ∈ tops ∨ ∃ p s, .began p true ∈ steps ∧ t.slot? p = some s ∧ n ∈ s.children
  tries {p : Nat} {s} : .began p true ∈ steps → t.slot? p = some s →
    s.kind.Tries ((m.selected p e).getD 0) s.children (tried s.children steps)
  calls : (calls steps).Sublist (executed steps)

theorem orderly_nil {m : Memory} {e : EntityId} {tops : List NodeId} :
    t.Orderly m e tops ([] : List (Step χ)) where
  once := .nil
  parent h := by cases h
  tries h := by cases h
  calls := .slnil

/-- What happens in two regions apart from each other, of which each holds the children of its nodes. -/
theorem Orderly.append {m : Memory} {e : EntityId} {tops : List NodeId} {steps new : List (Step χ)}
    {A B : NodeId → Prop} (h : t.Orderly m e tops steps) (h' : t.Orderly m e tops new)
    (inA : ∀ st ∈ steps, A st.node) (inB : ∀ st ∈ new, B st.node) (apart : ∀ n, A n → ¬B n)
    (downA : ∀ p s, A p → t.slot? p = some s → ∀ c ∈ s.children, A c)
    (downB : ∀ p s, B p → t.slot? p = some s → ∀ c ∈ s.children, B c) :
    t.Orderly m e tops (steps ++ new) where
  once := by
    rw [executed_append, List.nodup_append]
    refine ⟨h.once, h'.once, ?_⟩
    rintro n hn _ hn' rfl
    exact apart n (forall_executed inA n hn) (forall_executed inB n hn')
  parent {n} hn := by
    rw [executed_append, List.mem_append] at hn
    rcases hn with hn | hn
    · rcases h.parent hn with htop | ⟨p, s, hp, hs, hc⟩
      · exact .inl htop
      · exact .inr ⟨p, s, List.mem_append_left _ hp, hs, hc⟩
    · rcases h'.parent hn with htop | ⟨p, s, hp, hs, hc⟩
      · exact .inl htop
      · exact .inr ⟨p, s, List.mem_append_right _ hp, hs, hc⟩
  tries {p s} hp hs := by
    rw [tried_append]
    rcases List.mem_append.mp hp with hp | hp
    · have hnil : tried s.children new = [] := tried_eq_nil fun n hn hc =>
        apart n (downA p s (inA _ hp) hs n hc) (forall_executed inB n hn)
      rw [hnil, List.append_nil]
      exact h.tries hp hs
    · have hnil : tried s.children steps = [] := tried_eq_nil fun n hn hc =>
        apart n (forall_executed inA n hn) (downB p s (inB _ hp) hs n hc)
      rw [hnil, List.nil_append]
      exact h'.tries hp hs
  calls := by
    rw [calls_append, executed_append]
    exact h.calls.append h'.calls

theorem Orderly.congr {m m' : Memory} {e : EntityId} {tops tops' : List NodeId} {steps : List (Step χ)}
    (h : t.Orderly m e tops steps) (htops : ∀ n ∈ tops, n ∈ tops')
    (hselected : ∀ p ∈ executed steps, m.selected p e = m'.selected p e) : t.Orderly m' e tops' steps where
  once := h.once
  parent hn := (h.parent hn).imp_left (htops _)
  tries hp hs := by
    rw [← hselected _ (mem_executed_of_began hp)]
    exact h.tries hp hs
  calls := h.calls

/-! ## Executions -/

/-- An execution of a node takes orderly steps in the subtree of the node, and executes the node. -/
def Once (t : BehaviorTree χ) (scene : Scene) (id : NodeId) (f g : Frame χ) : Prop :=
  ∃ new, g.steps = f.steps ++ new ∧ (∀ st ∈ new, st.node ∈ t.subtree id) ∧ id ∈ executed new ∧
    t.Orderly f.memory scene.entity [id] new

/-- Of the children of a node an execution of one child executes that child only. -/
theorem Once.tried (nested : t.Nested) (hs : t.slot? id = some s) {c : Nat} (hc : c ∈ s.children)
    (h : t.Once scene c f g) : tried s.children g.steps = tried s.children f.steps ++ [c] := by
  obtain ⟨new, hsteps, hinside, hself, horderly⟩ := h
  have honly : ∀ n ∈ executed new, decide (n ∈ s.children) = (n == c) := by
    intro n hn
    rw [Bool.eq_iff_iff, decide_eq_true_iff, beq_iff_eq]
    constructor
    · intro hchild
      exact nested.apart hs hchild hc (nested.self_mem_child hs hchild) (forall_executed hinside n hn)
    · rintro rfl
      exact hc
  have hone : (executed new).filter (· ∈ s.children) = [c] := by
    rw [List.filter_congr honly, List.filter_beq, horderly.once.count, if_pos hself]
    rfl
  rw [hsteps, tried_append]
  exact congrArg _ hone

theorem Acts.orderly (nested : t.Nested) (hs : t.slot? id = some s)
    (within : ∀ c ∈ s.children, ∀ g, t.Within scene c g (run c g).2)
    (hrun : ∀ c ∈ s.children, ∀ g, t.Once scene c g (run c g).2) {used : List NodeId}
    (h : t.Acts scene run id s.children f used g) :
    ∃ new, g.steps = f.steps ++ new ∧ (∀ st ∈ new, ∃ c ∈ s.children, c ∈ used ∧ st.node ∈ t.subtree c) ∧
      t.Orderly f.memory scene.entity s.children new := by
  induction h with
  | start => exact ⟨[], by simp, by simp, orderly_nil⟩
  | @run used g c hacts hc hnew ih =>
      obtain ⟨old, hold, hinside, horderly⟩ := ih
      obtain ⟨new, hsteps, hinside', -, horderly'⟩ := hrun c hc g
      have hfresh := (hacts.within nested hs within).2 c hc hnew
      have horderly' : t.Orderly f.memory scene.entity s.children new :=
        horderly'.congr (by simpa using hc) fun p hp => (hfresh p (forall_executed hinside' p hp)).selected
      refine ⟨old ++ new, by rw [hsteps, hold, List.append_assoc], ?_, ?_⟩
      · intro st hst
        rcases List.mem_append.mp hst with hst | hst
        · obtain ⟨c', hc', hused, hin⟩ := hinside st hst
          exact ⟨c', hc', by simp [hused], hin⟩
        · exact ⟨c, hc, by simp, hinside' st hst⟩
      · -- what has been touched before lies apart from the subtree of the child
        refine horderly.append (A := fun n => ∃ c' ∈ s.children, c' ∈ used ∧ n ∈ t.subtree c')
          (B := fun n => n ∈ t.subtree c) horderly' hinside hinside' ?_ ?_ fun p s hp hs d hd => ?_
        · rintro n ⟨c', hc', hused, hin⟩ hin'
          exact hnew (nested.apart hs hc hc' hin' hin ▸ hused)
        · rintro p s' ⟨c', hc', hused, hin⟩ hs' d hd
          exact ⟨c', hc', hused, nested.child_mem hin hs' hd⟩
        · exact nested.child_mem hp hs hd
  | @reset used g c _ _ ih =>
      obtain ⟨new, hsteps, hinside, horderly⟩ := ih
      refine ⟨new, by rwa [steps_reset], fun st hst => ?_, horderly⟩
      obtain ⟨c', hc', hused, hin⟩ := hinside st hst
      exact ⟨c', hc', by simp [hused], hin⟩
  | @resetBelow used g _ ih =>
      obtain ⟨new, hsteps, hinside, horderly⟩ := ih
      refine ⟨new, by rwa [steps_resetBelow], fun st hst => ?_, horderly⟩
      obtain ⟨c', hc', hused, hin⟩ := hinside st hst
      exact ⟨c', hc', by simp [hused], hin⟩
  | select _ _ ih => exact ih
  | complete _ ih => exact ih

/-! ## Nodes -/

/-- A node that executes no other. -/
theorem orderly_alone {m : Memory} {e : EntityId} {steps : List (Step χ)} (hs : t.slot? id = some s)
    (hself : id ∉ s.children) (hexecuted : executed steps = [id]) (hcalls : (calls steps).Sublist [id])
    (htries : .began id true ∈ steps → s.kind.Tries ((m.selected id e).getD 0) s.children []) :
    t.Orderly m e [id] steps where
  once := by simp [hexecuted]
  parent hn := .inl (hexecuted ▸ hn)
  tries {p s'} hp hs' := by
    have hpid : p = id := by simpa [hexecuted] using mem_executed_of_began hp
    subst hpid
    obtain rfl : s = s' := Option.some.inj (hs.symm.trans hs')
    rw [tried_eq_nil (by simpa [hexecuted] using hself)]
    exact htries hp
  calls := by rwa [hexecuted]

/-- A node that ran, with what happened below it. -/
theorem Orderly.node {m : Memory} {e : EntityId} {body : List (Step χ)} {status : Status} (nested : t.Nested)
    (hs : t.slot? id = some s) (h : t.Orderly m e s.children body)
    (inside : ∀ st ∈ body, ∃ c ∈ s.children, st.node ∈ t.subtree c)
    (htries : s.kind.Tries ((m.selected id e).getD 0) s.children (tried s.children body)) :
    t.Orderly m e [id] (.began id true :: body ++ [.ended id status]) := by
  have inside := forall_executed (P := fun n => ∃ c ∈ s.children, n ∈ t.subtree c) inside
  have hself := nested.not_mem_children hs
  have hbelow {p : Nat} (hp : p ∈ executed body) : p ≠ id := by
    rintro rfl
    obtain ⟨c, hc, hin⟩ := inside _ hp
    exact nested.self_not_mem_child hs hc hin
  have hnot {p : Nat} {s'} (hp : p ∈ executed body) (hs' : t.slot? p = some s') : id ∉ s'.children := by
    intro hid
    obtain ⟨c, hc, hin⟩ := inside _ hp
    exact nested.self_not_mem_child hs hc (nested.child_mem hin hs' hid)
  have hexecuted : executed (.began id true :: body ++ [.ended id status]) = id :: executed body := by
    simp [executed_append]
  have htried {children : List NodeId} (hid : id ∉ children) :
      tried children (.began id true :: body ++ [.ended id status]) = tried children body := by
    simp [Step.tried, hid]
  refine ⟨?_, fun {n} hn => ?_, fun {p s'} hp hs' => ?_, ?_⟩
  · rw [hexecuted]
    exact List.nodup_cons.mpr ⟨fun hin => hbelow hin rfl, h.once⟩
  · rw [hexecuted] at hn
    rcases List.mem_cons.mp hn with rfl | hn
    · exact .inl (by simp)
    · refine .inr ?_
      rcases h.parent hn with hchild | ⟨p, s', hp, hs', hc⟩
      · exact ⟨id, s, by simp, hs, hchild⟩
      · exact ⟨p, s', by simp [hp], hs', hc⟩
  · have hp : p = id ∨ .began p true ∈ body := by simpa using hp
    rcases hp with rfl | hp
    · obtain rfl : s = s' := Option.some.inj (hs.symm.trans hs')
      rwa [htried hself]
    · rw [htried (hnot (mem_executed_of_began hp) hs')]
      exact h.tries hp hs'
  · have hcalls : Step.calls (.began id true :: body ++ [.ended id status]) = Step.calls body := by
      simp
    rw [hexecuted, hcalls]
    exact h.calls.trans (List.sublist_cons_self _ _)

section Below

variable (nested : t.Nested) (hs : t.slot? id = some s)
  (within : ∀ c ∈ s.children, ∀ g, t.Within scene c g (run c g).2)
  (hrun : ∀ c ∈ s.children, ∀ g, t.Once scene c g (run c g).2)

include nested hs within hrun

theorem once_perform (status : Status) :
    ∃ body, (t.perform scene run id s f).2.steps = f.steps ++ body ∧ (∀ st ∈ body, st.node ∈ t.subtree id) ∧
      t.Orderly f.memory scene.entity [id] (.began id true :: body ++ [.ended id status]) := by
  by_cases hk : ∃ task, s.kind = .task task
  · obtain ⟨task, hk⟩ := hk
    have hself := nested.not_mem_children hs
    simp only [perform, hk]
    refine ⟨_, steps_runTask, by simp [Step.node, taskContext, nested.mem_self hs], ?_⟩
    exact orderly_alone hs hself rfl (List.Sublist.refl _) fun _ => by simp [hk, NodeKind.Tries]
  · have hacts : ∃ used, t.Acts scene run id s.children f used (t.perform scene run id s f).2 :=
      perform_acts (fun task hk' => hk ⟨task, hk'⟩) (nested.nodup hs)
    obtain ⟨used, hacts⟩ := hacts
    obtain ⟨body, hbody, inside, horderly⟩ := hacts.orderly nested hs within hrun
    have inside : ∀ st ∈ body, ∃ c ∈ s.children, st.node ∈ t.subtree c := by
      intro st hst
      obtain ⟨c, hc, -, hin⟩ := inside st hst
      exact ⟨c, hc, hin⟩
    obtain ⟨tried, htries, htried⟩ := tried_perform (t := t) (f := f) fun c hc g => (hrun c hc g).tried nested hs hc
    rw [hbody, tried_append, List.append_cancel_left_eq] at htried
    refine ⟨body, hbody, fun st hst => ?_, horderly.node nested hs inside (htried ▸ htries)⟩
    obtain ⟨c, hc, hin⟩ := inside st hst
    exact (nested.below hs hc hin).2

variable [Character χ]

theorem once_visit : t.Once scene id f (t.visit scene run id s f).2 := by
  have hself := nested.not_mem_children hs
  have hin := nested.mem_self hs
  simp only [visit, attempt]
  cases hallowed : (judge scene id s f).1 with
  | false =>
      refine ⟨[.began id false, .ended id .cannotExecute], ?_, ?_, by simp, ?_⟩
      · simp [steps_judge, hallowed]
      · simp [Step.node, hin]
      · exact orderly_alone hs hself rfl (List.nil_sublist _) (by simp)
  | true =>
      obtain ⟨body, hbody, inside, horderly⟩ := once_perform (f := (judge scene id s f).2) nested hs within hrun
        (t.perform scene run id s (judge scene id s f).2).1
      refine ⟨_, ?_, ?_, ?_, horderly.congr (fun n hn => hn) fun p _ => agree_judge.selected⟩
      · simp [hbody, steps_judge, hallowed]
      · simpa [or_imp, forall_and, Step.node, hin] using inside
      · simp

end Below

variable [Character χ]

/-- Executing a node is orderly. -/
theorem Nested.once_execute (nested : t.Nested) (hs : t.slot? id = some s) (f : Frame χ) :
    t.Once scene id f (t.execute scene id f).2 := by
  refine nested.induction (fun id => ∀ f, t.Once scene id f (t.execute scene id f).2) ?_ hs f
  intro id s hs ih f
  rw [nested.execute_of_slot hs]
  exact once_visit nested hs (fun c _ g => nested.within_execute c g) ih

end BehaviorTree

/-! ## Updates -/

namespace Agent

variable [Character χ] {a : Agent χ} {name : String} {root : TreeNode χ} {home : Option Roster} {delta : UInt64}

theorem orderly_steps_update (h : a.behavior = .ofNode name root) :
    a.behavior.Orderly a.memory a.entity [NodeId.root] (a.update home delta).steps ∧
      (NodeId.root ∈ executed (a.update home delta).steps ↔ a.paused = false) := by
  cases hp : a.paused with
  | true =>
      rw [update_of_paused hp]
      exact ⟨BehaviorTree.orderly_nil, by simp⟩
  | false =>
      have nested : a.behavior.Nested := h ▸ BehaviorTree.nested_ofNode name root
      have hroot : a.behavior.slot? NodeId.root = some (root.slot NodeId.root) :=
        h ▸ (BehaviorTree.holds_ofNode name root).slot
      obtain ⟨new, hsteps, -, hself, horderly⟩ := nested.once_execute hroot (a.frame delta)
      have hsteps : (a.execution home delta).2.steps = new := hsteps
      rw [update_of_awake hp, hsteps]
      exact ⟨horderly, iff_of_true hself rfl⟩

/-- Whatever state an agent is in, an update executes every node at most once, the root unless the agent is paused,
and calls no leaf twice. -/
theorem orderly_update (a : Agent χ) (name : String) (root : TreeNode χ) (home : Option Roster) (delta : UInt64) :
    (BehaviorTree.ofNode name root).Orderly a.memory a.entity [NodeId.root]
        (update { a with behavior := .ofNode name root } home delta).steps ∧
      (NodeId.root ∈ executed (update { a with behavior := .ofNode name root } home delta).steps ↔
        a.paused = false) ∧
      (calls (update { a with behavior := .ofNode name root } home delta).steps).Nodup := by
  have h : (BehaviorTree.ofNode name root).Orderly a.memory a.entity [NodeId.root]
        (update { a with behavior := .ofNode name root } home delta).steps ∧
      (NodeId.root ∈ executed (update { a with behavior := .ofNode name root } home delta).steps ↔
        a.paused = false) :=
    orderly_steps_update (a := { a with behavior := .ofNode name root }) rfl
  exact ⟨h.1, h.2, h.1.once.sublist h.1.calls⟩

/-- A node that runs its two leaves each tick. -/
example :
    executed (({ entity := ⟨1⟩, character := (), behavior := .ofNode "" { TreeNode.ofKind .parallel with
      children := [.idle 0, .idle 5] } } : Agent Unit).update none 0).steps = [0, 1, 2] := by
  rfl

end Agent

end Behavior
