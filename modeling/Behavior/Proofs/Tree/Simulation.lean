import Behavior.Proofs.Tree.Recall
/-!
# The arena keeps to the hierarchy

Executing a laid out tree on a memory that is keyed by ids does what the interpreter on the hierarchy does
(`Holds.interpret_site`). A frame is seen as the hierarchy with its memories gathered (`TreeNode.site`);
every act of a node on the frame is an act of the interpreter on what is seen.
-/

namespace Behavior.BehaviorTree

open TreeNode

variable {χ : Type} {t : BehaviorTree χ} {scene : Scene} {id c i : Nat} {n k : TreeNode χ} {f g : Frame χ}
  {kids : List (Child χ)} {run : Runner χ}

/-! ## Statuses -/

theorem decide_running (s : Status) : decide (s = .running) = s.isRunning := by cases s <;> rfl

theorem inverted_eq (s : Status) :
    inverted s = match s with
      | .finished => .failed
      | .failed => .finished
      | s => s := by
  cases s <;> rfl

theorem settledAs_eq (result s : Status) :
    settledAs result s = match s with
      | .running => .running
      | _ => result := by
  cases s <;> rfl

/-! ## The node itself -/

theorem selected_site : (n.site scene.entity id f).recalled.record.selected = f.selected scene id := by
  rw [TreeNode.site, record_recalled]; rfl

theorem select_site {o : Option Nat} :
    (n.site scene.entity id f).select o = n.site scene.entity id (f.setSelected scene id o) := by
  have agree : ∀ k, k ≠ id → (f.setSelected scene id o).memory.Agree f.memory k scene.entity := fun k hk =>
    Memory.agree_setSelected fun h => hk h.1
  rw [site_of_agree agree]
  simp [TreeNode.site, Site.select, Frame.world, Memory.getD_setSelected_self, Frame.setSelected]

theorem complete_site : (n.site scene.entity id f).complete = n.site scene.entity id (f.complete scene id) := by
  have agree : ∀ k, k ≠ id → (f.complete scene id).memory.Agree f.memory k scene.entity := fun k hk =>
    Memory.agree_complete fun h => hk h.1
  rw [site_of_agree agree]
  simp [TreeNode.site, Site.complete, Memory.completions_complete_self]
  exact ⟨rfl, rfl⟩

theorem forget_site : (⟨{ n.recalled f.memory scene.entity id with record := {} }, f.world⟩ : Site χ) =
    n.site scene.entity id (f.forget scene id) := by
  have agree : ∀ k, k ≠ id → (f.forget scene id).memory.Agree f.memory k scene.entity := fun k hk =>
    Memory.agree_forget fun h => hk h.1
  rw [site_of_agree agree]
  simp only [completions_recalled, inner_recalled, Frame.memory_forget, Memory.getD_forget_self]
  rfl

theorem forgetTraced_site :
    (⟨{ n.recalled f.memory scene.entity id with record := {} },
      f.world.traceChange scene id (n.recalled f.memory scene.entity id).record.status .unknown⟩ : Site χ) =
    n.site scene.entity id (f.forgetTraced scene id) := by
  have agree : ∀ k, k ≠ id → (f.forgetTraced scene id).memory.Agree f.memory k scene.entity := fun k hk => by
    rw [Frame.memory_forgetTraced]
    exact Memory.agree_forget fun h => hk h.1
  rw [site_of_agree agree]
  simp only [record_recalled, completions_recalled, inner_recalled, Frame.memory_forgetTraced, Memory.getD_forget_self]
  by_cases h : (f.memory.getD id scene.entity).status = .unknown
  · simp only [World.traceChange, Frame.forgetTraced, Frame.status, Memory.status, h, if_true]
    rfl
  · simp only [World.traceChange, Frame.forgetTraced, Frame.status, Memory.status, h, if_false]
    rfl

theorem call_site {task : Task χ} : Site.call scene id task (n.site scene.entity id f) =
    ((runTask scene id task f).1, n.site scene.entity id (runTask scene id task f).2) := by
  have agree : ∀ k, k ≠ id → (runTask scene id task f).2.memory.Agree f.memory k scene.entity := fun k hk => by
    obtain ⟨timer, hm⟩ := @memory_runTask _ scene id f task
    rw [hm]
    exact Memory.agree_update fun h => hk h.1
  rw [site_of_agree agree]
  have hrecord : ∀ timer, (f.memory.setTimer id scene.entity timer).getD id scene.entity =
      { f.memory.getD id scene.entity with timer } := fun _ => Memory.getD_update_self
  simp only [Site.call, TreeNode.site, record_recalled, completions_recalled, inner_recalled, runTask, Frame.world,
    Frame.note, World.note, ne_eq, decide_not, decide_running]
  generalize task _ _ = r
  cases r.1.result with
  | ok s =>
      simp only [hrecord]
      rfl
  | error fault =>
      simp only [Frame.memory_trace, hrecord]
      rfl

theorem record_site {previous status : Status} : Site.record scene id previous status (n.site scene.entity id f) =
    n.site scene.entity id ((f.record scene id previous status).note (.ended id status)) := by
  have agree : ∀ k, k ≠ id →
      ((f.record scene id previous status).note (.ended id status)).memory.Agree f.memory k scene.entity := by
    intro k hk
    rw [Frame.memory_note, Frame.memory_record]
    exact Memory.agree_update fun h => hk h.1
  rw [site_of_agree agree]
  simp only [Site.record, TreeNode.site, record_recalled, completions_recalled, inner_recalled, Frame.memory_note,
    Frame.memory_record, Memory.getD_update_self]
  simp only [World.traceChange, Frame.record]
  split <;> rfl

/-! ## Children -/

theorem withChild_site (h : t.Holds id n) (hc : (siblingIds (id + 1) n.children)[i]? = some c)
    (hi : n.children[i]? = some k) (agree : ∀ l, l ∉ t.subtree c → g.memory.Agree f.memory l scene.entity) :
    (n.site scene.entity id f).withChild i (k.site scene.entity c g) = n.site scene.entity id g := by
  obtain ⟨_, _, hh, hle, _⟩ := h.children.mem (List.mem_of_getElem? hc)
  have hself : g.memory.Agree f.memory id scene.entity := agree id fun hin => by
    have := hh.mem_subtree.mp hin; omega
  simp only [Site.withChild, TreeNode.site, record_recalled, completions_recalled, inner_recalled,
    h.children.set_recalled hc hi agree]
  rw [← Memory.getD_congr hself.1, ← hself.2, ← recalled_eq]

/-- These are the ids at those indices. -/
def Indexes (ids : List NodeId) (is : List Nat) (cs : List NodeId) : Prop := is.map (ids[·]?) = cs.map some

section Indexes

variable {ids cs : List NodeId} {is : List Nat}

theorem indexes_range : Indexes ids (List.range ids.length) ids := by
  refine List.ext_getElem (by simp) fun j h₁ h₂ => ?_
  rw [List.length_map] at h₂
  simp [List.getElem?_eq_getElem h₂]

theorem Indexes.length_eq (h : Indexes ids is cs) : is.length = cs.length := by
  simpa using congrArg List.length h

theorem indexes_cons {i : Nat} {c : NodeId} :
    Indexes ids (i :: is) (c :: cs) ↔ ids[i]? = some c ∧ Indexes ids is cs := by
  simp [Indexes]

theorem Indexes.drop (h : Indexes ids is cs) (m : Nat) : Indexes ids (is.drop m) (cs.drop m) := by
  rw [Indexes, List.map_drop, List.map_drop, h]

theorem Indexes.take (h : Indexes ids is cs) (m : Nat) : Indexes ids (is.take m) (cs.take m) := by
  rw [Indexes, List.map_take, List.map_take, h]

theorem Indexes.eraseIdx (h : Indexes ids is cs) (m : Nat) : Indexes ids (is.eraseIdx m) (cs.eraseIdx m) := by
  simp only [Indexes] at h
  rw [Indexes, List.eraseIdx_eq_take_drop_succ, List.eraseIdx_eq_take_drop_succ, List.map_append, List.map_append,
    List.map_drop, List.map_drop, List.map_take, List.map_take, h]

theorem Indexes.shuffle (h : Indexes ids is cs) (r : Generator) : Indexes ids (r.shuffle is).1 (r.shuffle cs).1 := by
  simp only [Indexes] at h
  rw [Indexes, ← Generator.shuffle_map, ← Generator.shuffle_map, h]

end Indexes

/-- Running and forgetting a child in its place is what the runner of ids does with the child's id. -/
structure Mirrors (t : BehaviorTree χ) (scene : Scene) (run : Runner χ) (id : NodeId) (n : TreeNode χ)
    (kids : List (Child χ)) : Prop where
  holds : t.Holds id n
  length : kids.length = (siblingIds (id + 1) n.children).length
  run {i : Nat} {c : NodeId} : (siblingIds (id + 1) n.children)[i]? = some c → ∀ f,
    Site.runChild kids i (n.site scene.entity id f) = ((run c f).1, n.site scene.entity id (run c f).2)
  forget {i : Nat} {c : NodeId} : (siblingIds (id + 1) n.children)[i]? = some c → ∀ f,
    Site.forgetChild kids i (n.site scene.entity id f) = n.site scene.entity id (t.reset scene c f)

namespace Mirrors

variable {is : List Nat} {cs : List NodeId}

theorem indexes (mirrors : t.Mirrors scene run id n kids) :
    Indexes (siblingIds (id + 1) n.children) (List.range kids.length) (siblingIds (id + 1) n.children) := by
  rw [mirrors.length]
  exact indexes_range

theorem forgetChildren (mirrors : t.Mirrors scene run id n kids)
    (h : Indexes (siblingIds (id + 1) n.children) is cs) (f : Frame χ) :
    Site.forgetChildren kids is (n.site scene.entity id f) = n.site scene.entity id (t.resetAll scene cs f) := by
  induction cs generalizing is f with
  | nil =>
      obtain rfl := List.eq_nil_of_length_eq_zero h.length_eq
      rfl
  | cons c cs ih =>
      cases is with
      | nil => cases h
      | cons i is =>
          obtain ⟨hi, h⟩ := indexes_cons.mp h
          rw [Site.forgetChildren, List.foldl_cons, mirrors.forget hi, resetAll_cons]
          exact ih h _

theorem clear (mirrors : t.Mirrors scene run id n kids) (f : Frame χ) :
    Site.clear kids (n.site scene.entity id f) = n.site scene.entity id (t.resetBelow scene id f) := by
  rw [mirrors.holds.resetBelow, ← mirrors.forgetChildren mirrors.indexes, ← forget_site]
  rfl

theorem sequenceOn (mirrors : t.Mirrors scene run id n kids) {i : Nat} {last : Status}
    (hcs : (siblingIds (id + 1) n.children).drop i = cs) (f : Frame χ) :
    Site.sequenceOn kids (List.range' i cs.length) last (n.site scene.entity id f) =
      ((t.sequenceFrom scene run id i cs last f).1,
        n.site scene.entity id (t.sequenceFrom scene run id i cs last f).2) := by
  induction cs generalizing i last f with
  | nil => simp only [List.length_nil, List.range'_zero, Site.sequenceOn, sequenceFrom, mirrors.clear]
  | cons c cs ih =>
      obtain ⟨hi, htail⟩ := drop_eq_cons hcs
      simp only [List.length_cons, List.range'_succ, Site.sequenceOn, sequenceFrom, mirrors.run hi]
      rcases run c f with ⟨r, g⟩
      cases r with
      | running => simp only [select_site]
      | cannotExecute | failed => simp only [mirrors.clear]
      | exception => rfl
      | unknown | finished => exact ih htail g

theorem sequence (mirrors : t.Mirrors scene run id n kids) (f : Frame χ) :
    Site.sequence kids (n.site scene.entity id f) =
      ((t.sequence scene run id (siblingIds (id + 1) n.children) f).1,
        n.site scene.entity id (t.sequence scene run id (siblingIds (id + 1) n.children) f).2) := by
  simp only [Site.sequence, BehaviorTree.sequence, selected_site]
  rw [← mirrors.sequenceOn rfl, List.length_drop, mirrors.length, List.range_eq_range', List.drop_range']
  simp

theorem priorityOn (mirrors : t.Mirrors scene run id n kids) {i : Nat}
    (hcs : (siblingIds (id + 1) n.children).drop i = cs) (f : Frame χ) :
    Site.priorityOn kids (List.range' i cs.length) (n.site scene.entity id f) =
      ((t.priorityFrom scene run id i cs f).1,
        n.site scene.entity id (t.resetAll scene (t.priorityFrom scene run id i cs f).2.1
          (t.priorityFrom scene run id i cs f).2.2)) := by
  induction cs generalizing i f with
  | nil => rfl
  | cons c cs ih =>
      obtain ⟨hi, htail⟩ := drop_eq_cons hcs
      have hrest : Indexes (siblingIds (id + 1) n.children) (List.range' (i + 1) cs.length) cs := by
        have h := (@indexes_range (siblingIds (id + 1) n.children)).drop (i + 1)
        rwa [List.range_eq_range', List.drop_range', htail, ← List.length_drop, htail, Nat.zero_add,
          Nat.mul_one] at h
      simp only [List.length_cons, List.range'_succ, Site.priorityOn, priorityFrom, mirrors.run hi]
      rcases run c f with ⟨r, g⟩
      cases r with
      | running => simp only [select_site, mirrors.forgetChildren hrest]
      | cannotExecute | failed =>
          simp only [mirrors.forget hi, select_site]
          exact ih htail _
      | unknown | finished | exception =>
          simp only [select_site, mirrors.forget hi, mirrors.forgetChildren hrest]

theorem prioritySelector (mirrors : t.Mirrors scene run id n kids) (f : Frame χ) :
    Site.prioritySelector kids (n.site scene.entity id f) =
      ((t.prioritySelector scene run id (siblingIds (id + 1) n.children) f).1,
        n.site scene.entity id (t.prioritySelector scene run id (siblingIds (id + 1) n.children) f).2) := by
  simp only [Site.prioritySelector, BehaviorTree.prioritySelector, selected_site,
    mirrors.forgetChildren (mirrors.indexes.take _)]
  rw [mirrors.length]
  generalize min ((f.selected scene id).getD 0) (siblingIds (id + 1) n.children).length = start
  rw [← mirrors.priorityOn rfl, List.length_drop, List.range_eq_range', List.drop_range']
  simp

theorem runEach (mirrors : t.Mirrors scene run id n kids) {overall : Status}
    (h : Indexes (siblingIds (id + 1) n.children) is cs) (f : Frame χ) :
    Site.runEach kids is overall (n.site scene.entity id f) =
      ((t.runEach scene run cs overall f).1, n.site scene.entity id (t.runEach scene run cs overall f).2) := by
  induction cs generalizing is overall f with
  | nil =>
      obtain rfl := List.eq_nil_of_length_eq_zero h.length_eq
      rfl
  | cons c cs ih =>
      cases is with
      | nil => cases h
      | cons i is =>
          obtain ⟨hi, h⟩ := indexes_cons.mp h
          simp only [Site.runEach, BehaviorTree.runEach, mirrors.run hi]
          rcases run c f with ⟨r, g⟩
          cases r with
          | running => exact ih h g
          | cannotExecute | failed | unknown | finished | exception =>
              simp only [mirrors.forget hi]
              exact ih h _

theorem randomSelector (mirrors : t.Mirrors scene run id n kids) (f : Frame χ) :
    Site.randomSelector kids scene id (n.site scene.entity id f) =
      ((t.randomSelector scene run id (siblingIds (id + 1) n.children) f).1,
        n.site scene.entity id (t.randomSelector scene run id (siblingIds (id + 1) n.children) f).2) :=
  mirrors.runEach (mirrors.indexes.shuffle _) f

theorem parallelOn (mirrors : t.Mirrors scene run id n kids) {running : Bool}
    (h : Indexes (siblingIds (id + 1) n.children) is cs) (f : Frame χ) :
    Site.parallelOn kids is running (n.site scene.entity id f) =
      ((t.parallelFrom scene run cs running f).1,
        n.site scene.entity id (t.parallelFrom scene run cs running f).2) := by
  induction cs generalizing is running f with
  | nil =>
      obtain rfl := List.eq_nil_of_length_eq_zero h.length_eq
      rfl
  | cons c cs ih =>
      cases is with
      | nil => cases h
      | cons i is =>
          obtain ⟨hi, h⟩ := indexes_cons.mp h
          simp only [Site.parallelOn, parallelFrom, mirrors.run hi]
          rcases run c f with ⟨r, g⟩
          cases r with
          | running => exact ih h g
          | unknown | cannotExecute | finished | failed | exception =>
              simp only [mirrors.forget hi]
              exact ih h _

theorem parallel (mirrors : t.Mirrors scene run id n kids) (f : Frame χ) :
    Site.parallel kids (n.site scene.entity id f) =
      ((t.parallel scene run id (siblingIds (id + 1) n.children) f).1,
        n.site scene.entity id (t.parallel scene run id (siblingIds (id + 1) n.children) f).2) := by
  simp only [Site.parallel, BehaviorTree.parallel, mirrors.parallelOn mirrors.indexes]
  rcases t.parallelFrom scene run (siblingIds (id + 1) n.children) false f with ⟨running, g⟩
  cases running with
  | true => rfl
  | false => simp only [mirrors.clear]

theorem childStatus (mirrors : t.Mirrors scene run id n kids) (f : Frame χ) (i : Nat) :
    decide ((n.site scene.entity id f).childStatus i = .running) =
      match (siblingIds (id + 1) n.children)[i]? with
      | some c => (f.status scene c).isRunning
      | none => false := by
  simp only [decide_running, Site.childStatus, TreeNode.site, inner_recalled]
  cases hc : (siblingIds (id + 1) n.children)[i]? with
  | some c =>
      obtain ⟨k, _, _, hr⟩ := mirrors.holds.children.at hc
      simp only [hr, Option.map_some, Option.getD_some, record_recalled]
      rfl
  | none =>
      have : (recalledAll f.memory scene.entity (id + 1) n.children)[i]? = none := by
        rw [List.getElem?_eq_none_iff, length_recalledAll, ← length_siblingIds (id + 1)]
        exact List.getElem?_eq_none_iff.mp hc
      simp only [this]
      rfl

theorem probabilitySelector (mirrors : t.Mirrors scene run id n kids) (weights : List Float32) (f : Frame χ) :
    Site.probabilitySelector kids scene id weights (n.site scene.entity id f) =
      ((t.probabilitySelector scene run id weights (siblingIds (id + 1) n.children) f).1,
        n.site scene.entity id
          (t.probabilitySelector scene run id weights (siblingIds (id + 1) n.children) f).2) := by
  have hresumed : (f.selected scene id).filter (fun i => (n.site scene.entity id f).childStatus i = .running) =
      resumable? scene id (siblingIds (id + 1) n.children) f := by
    simp only [mirrors.childStatus]; rfl
  have hchoice : ((Site.stream scene id).chooseWeighted
      ((List.range kids.length).map fun i => weights[i]?.getD 1)).1 =
      choice? scene id weights (siblingIds (id + 1) n.children) := by
    rw [mirrors.length]; rfl
  simp only [Site.probabilitySelector, BehaviorTree.probabilitySelector, selected_site, hresumed, hchoice]
  cases (resumable? scene id (siblingIds (id + 1) n.children) f).or
    (choice? scene id weights (siblingIds (id + 1) n.children)) with
  | none => rfl
  | some chosen =>
      simp only [mirrors.forgetChildren (mirrors.indexes.eraseIdx chosen)]
      cases hc : (siblingIds (id + 1) n.children)[chosen]? with
      | none =>
          have hlt : ¬chosen < kids.length := by
            rw [mirrors.length, Nat.not_lt]
            exact List.getElem?_eq_none_iff.mp hc
          simp only [hlt, if_false]
      | some c =>
          have hlt : chosen < kids.length := by
            rw [mirrors.length]
            exact (List.getElem?_eq_some_iff.mp hc).1
          simp only [hlt, if_true, mirrors.run hc]
          rcases run c _ with ⟨r, g⟩
          cases r with
          | running => simp only [select_site, Status.isRunning, if_true]
          | unknown | cannotExecute | finished | failed | exception =>
              simp only [select_site, mirrors.forget hc, Status.isRunning, Bool.false_eq_true, if_false]

theorem isEmpty_eq (mirrors : t.Mirrors scene run id n kids) :
    kids.isEmpty = (siblingIds (id + 1) n.children).isEmpty := by
  rw [Bool.eq_iff_iff, List.isEmpty_iff_length_eq_zero, List.isEmpty_iff_length_eq_zero, mirrors.length]

theorem decorate (mirrors : t.Mirrors scene run id n kids) {map map' : Status → Status}
    (hmap : ∀ s, map s = map' s) (f : Frame χ) :
    Site.decorate kids map' (n.site scene.entity id f) =
      ((decorate run map (siblingIds (id + 1) n.children) f).1,
        n.site scene.entity id (decorate run map (siblingIds (id + 1) n.children) f).2) := by
  obtain rfl : map = map' := funext hmap
  have hrun {c} := @mirrors.run 0 c
  rw [Site.decorate, mirrors.isEmpty_eq]
  generalize siblingIds (id + 1) n.children = cs at hrun ⊢
  cases cs with
  | nil => rfl
  | cons c cs =>
      simp only [BehaviorTree.decorate, hrun rfl, List.head?_cons]
      rfl

theorem limit (mirrors : t.Mirrors scene run id n kids) (amount : UInt32) (f : Frame χ) :
    Site.limit kids amount (n.site scene.entity id f) =
      ((limit scene run id amount (siblingIds (id + 1) n.children) f).1,
        n.site scene.entity id (limit scene run id amount (siblingIds (id + 1) n.children) f).2) := by
  have hrun {c} := @mirrors.run 0 c
  have hcount : (n.site scene.entity id f).recalled.completions = f.memory.completions id scene.entity :=
    completions_recalled
  rw [Site.limit, mirrors.isEmpty_eq, hcount]
  generalize siblingIds (id + 1) n.children = cs at hrun ⊢
  cases cs with
  | nil => rfl
  | cons c cs =>
      simp only [BehaviorTree.limit, hrun rfl, List.head?_cons, List.isEmpty_cons, Bool.false_or,
        decide_eq_true_eq]
      split
      · rfl
      · rcases run c f with ⟨r, g⟩
        cases r with
        | running => rfl
        | unknown | cannotExecute | finished | failed | exception =>
            simp only [complete_site, Status.isRunning, Bool.false_eq_true, if_false]

theorem perform (mirrors : t.Mirrors scene run id n kids) (f : Frame χ) :
    Site.perform kids scene id n.kind (n.site scene.entity id f) =
      ((t.perform scene run id (n.slot id) f).1, n.site scene.entity id (t.perform scene run id (n.slot id) f).2) := by
  unfold Site.perform BehaviorTree.perform
  simp only [TreeNode.slot]
  cases n.kind with
  | sequence => exact mirrors.sequence f
  | prioritySelector => exact mirrors.prioritySelector f
  | probabilitySelector weights => exact mirrors.probabilitySelector weights f
  | randomSelector => exact mirrors.randomSelector f
  | parallel => exact mirrors.parallel f
  | invert => exact mirrors.decorate inverted_eq f
  | succeed | fail => exact mirrors.decorate (settledAs_eq _) f
  | limit amount => exact mirrors.limit amount f
  | task task => exact call_site

end Mirrors

/-! ## Whole subtrees -/

mutual

theorem forget_subtree : (n : TreeNode χ) → {id : Nat} → t.Holds id n → (f : Frame χ) →
    n.forget scene id (n.site scene.entity id f) = n.site scene.entity id (t.reset scene id f)
  | ⟨label, condition, kind, children⟩, id, h, f => by
      have hworld := congrArg Site.world (@forgetTraced_site _ scene id ⟨label, condition, kind, children⟩ f)
      have hinner : recalledAll f.memory scene.entity (id + 1) children =
          recalledAll (f.forgetTraced scene id).memory scene.entity (id + 1) children := by
        refine (recalledAll_congr children fun k hk _ => ?_).symm
        rw [Frame.memory_forgetTraced]
        exact Memory.agree_forget fun hin => Nat.ne_of_gt hk hin.1
      have hgetD : (t.reset scene id f).memory.getD id scene.entity = {} := by
        have hmem : id ∈ t.subtree id := h.mem_subtree.mpr ⟨Nat.le_refl _, Nat.lt_add_of_pos_right (count_pos _)⟩
        rw [memory_reset, Memory.getD_eq, get?_resetState, if_pos ⟨hmem, rfl⟩, Option.getD_none]
      have hcount : (t.reset scene id f).memory.completions id scene.entity =
          f.memory.completions id scene.entity := by
        rw [memory_reset, completions_resetState]
      simp only [TreeNode.site, record_recalled] at hworld
      simp only [TreeNode.site, forget, hworld, recalled, hinner, hgetD, hcount]
      rw [forgetAll_subtrees children h.children, ← h.reset]

theorem forgetAll_subtrees : (ns : List (TreeNode χ)) → {id : Nat} → t.HoldsAll id ns → (f : Frame χ) →
    forgetAll scene id ns (recalledAll f.memory scene.entity id ns) f.world =
      (recalledAll (t.resetAll scene (siblingIds id ns) f).memory scene.entity id ns,
        (t.resetAll scene (siblingIds id ns) f).world)
  | [], _, _, _ => rfl
  | n :: ns, id, h, f => by
      have htail : recalledAll f.memory scene.entity (id + n.count) ns =
          recalledAll (t.reset scene id f).memory scene.entity (id + n.count) ns := by
        refine (recalledAll_congr ns fun k hk _ => ?_).symm
        rw [memory_reset]
        exact Memory.agree_resetState fun hin => by
          have := h.head.mem_subtree.mp hin.1; omega
      have hhead : n.recalled (t.reset scene id f).memory scene.entity id =
          n.recalled (t.resetAll scene (siblingIds (id + n.count) ns) (t.reset scene id f)).memory
            scene.entity id := by
        refine (recalled_congr n fun k _ hk => agree_resetAll fun c hc hin => ?_).symm
        obtain ⟨_, _, hh, hle, _⟩ := h.tail.mem hc
        have := hh.mem_subtree.mp hin.1
        omega
      have ih := forget_subtree n h.head f
      simp only [TreeNode.site] at ih
      simp only [recalledAll, forgetAll, ih, htail, siblingIds, resetAll_cons]
      rw [forgetAll_subtrees ns h.tail, hhead]

end

variable [Character χ]

theorem judge_site : Site.judge scene id n.condition (n.site scene.entity id f) =
    ((judge scene id (n.slot id) f).1, n.site scene.entity id (judge scene id (n.slot id) f).2) := by
  rw [site_of_agree fun k _ => agree_judge]
  simp only [Site.judge, judge, TreeNode.site]
  rw [recalled_eq]
  rfl

theorem length_offspring {ns : List (TreeNode χ)} : (offspring scene id ns).length = ns.length := by
  induction ns generalizing id with
  | nil => rfl
  | cons n ns ih => simp [offspring, ih]

theorem getElem?_offspring {ns : List (TreeNode χ)} (hc : (siblingIds id ns)[i]? = some c) (hk : ns[i]? = some k) :
    (offspring scene id ns)[i]? = some { run := k.interpret scene c, forget := k.forget scene c } := by
  induction ns generalizing id i with
  | nil => cases hk
  | cons n ns ih =>
      cases i with
      | zero =>
          simp only [siblingIds, List.getElem?_cons_zero, Option.some.injEq] at hc hk
          subst hc hk
          rfl
      | succ i => exact ih (by simpa [siblingIds] using hc) (by simpa using hk)

/-- The children of a node in their places mirror executions of their ids, if each child does. -/
theorem mirrors_offspring (nested : t.Nested) (h : t.Holds id n)
    (ih : ∀ c ∈ siblingIds (id + 1) n.children, ∀ k, t.Holds c k → ∀ f,
      k.interpret scene c (k.site scene.entity c f) =
        ((t.execute scene c f).1, k.site scene.entity c (t.execute scene c f).2)) :
    t.Mirrors scene (t.execute scene) id n (offspring scene (id + 1) n.children) where
  holds := h
  length := by rw [length_offspring, length_siblingIds]
  run {i c} hc f := by
    obtain ⟨k, hk, hi, hrecall⟩ := h.children.at hc
    have hinner : (n.site scene.entity id f).recalled.inner[i]? = some (k.recalled f.memory scene.entity c) := by
      rw [TreeNode.site, inner_recalled, hrecall]
    have ih := ih c (List.mem_of_getElem? hc) k hk f
    have agree : ∀ l, l ∉ t.subtree c → (t.execute scene c f).2.memory.Agree f.memory l scene.entity :=
      fun l hl => (nested.within_execute c f).agree l _ fun hin => hl hin.1
    rw [TreeNode.site] at ih
    simp only [Site.runChild, getElem?_offspring hc hi, hinner]
    rw [show (n.site scene.entity id f).world = f.world from rfl, ih]
    simp only [withChild_site h hc hi agree]
  forget {i c} hc f := by
    obtain ⟨k, hk, hi, hrecall⟩ := h.children.at hc
    have hinner : (n.site scene.entity id f).recalled.inner[i]? = some (k.recalled f.memory scene.entity c) := by
      rw [TreeNode.site, inner_recalled, hrecall]
    have hforget := @forget_subtree _ t scene k c hk f
    have agree : ∀ l, l ∉ t.subtree c → (t.reset scene c f).memory.Agree f.memory l scene.entity :=
      fun l hl => by rw [memory_reset]; exact Memory.agree_resetState fun hin => hl hin.1
    rw [TreeNode.site] at hforget
    simp only [Site.forgetChild, getElem?_offspring hc hi, hinner]
    rw [show (n.site scene.entity id f).world = f.world from rfl, hforget]
    exact withChild_site h hc hi agree

/-- Executing a laid out tree does what the interpreter does on the hierarchy. -/
theorem Holds.interpret_site (nested : t.Nested) (h : t.Holds id n) (f : Frame χ) :
    n.interpret scene id (n.site scene.entity id f) =
      ((t.execute scene id f).1, n.site scene.entity id (t.execute scene id f).2) := by
  refine nested.induction (fun id => ∀ n, t.Holds id n → ∀ f, n.interpret scene id (n.site scene.entity id f) =
    ((t.execute scene id f).1, n.site scene.entity id (t.execute scene id f).2)) ?_ h.slot n h f
  intro id s hs ih n h f
  obtain rfl := Option.some.inj (hs.symm.trans h.slot)
  have mirrors := mirrors_offspring nested h ih
  rw [nested.execute_of_slot hs]
  have hstatus : (n.site scene.entity id f).recalled.record.status = f.status scene id := by
    rw [TreeNode.site, record_recalled]; rfl
  rw [interpret_eq, hstatus, judge_site]
  simp only [visit, attempt]
  cases (judge scene id (n.slot id) f).1 with
  | true => simp only [if_true, mirrors.perform, record_site]
  | false => simp only [Bool.false_eq_true, if_false, record_site]

end Behavior.BehaviorTree
