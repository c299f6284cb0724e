import Behavior.Proofs.Tree.Running.Settled
/-!
# How a node leaves its children

Whatever the kind of a node, when it is done at most those of its children are running that it resumes
the next time (`perform_leaves`). Left out are selectors in random order, which remember nothing.
-/

namespace Behavior.BehaviorTree

variable {χ : Type} {t : BehaviorTree χ} {scene : Scene} {f g : Frame χ} {id c : Nat} {s : Slot χ}

/-- What running a child keeps. Only a decorator can rely on the guard of its child. -/
structure Obeys (t : BehaviorTree χ) (scene : Scene) (run : Runner χ) (s : Slot χ) : Prop where
  within : ∀ c ∈ s.children, ∀ f, t.Within scene c f (run c f).2
  live : ∀ c ∈ s.children, ∀ f, t.Waiting scene f c → (run c f).1 = .running → t.Live scene (run c f).2 c
  silent : ∀ c ∈ s.children, ∀ f, t.Waiting scene f c → (run c f).1 ≠ .running → t.Silent (run c f).2 c
  quiet : ∀ c ∈ s.children, ∀ f, t.Waiting scene f c → (run c f).1 ≠ .running →
    ((run c f).1 = .cannotExecute → s.kind.isDecorator) → t.Quiet scene (run c f).2 c

/-- How a node that gave this result leaves its children: only one that it will resume is running. -/
def Leaves (t : BehaviorTree χ) (scene : Scene) (id : NodeId) (s : Slot χ) (r : Status) (g : Frame χ) : Prop :=
  ∀ c ∈ s.children, t.Idle scene g c ∨
    r = .running ∧ t.Live scene g c ∧ Resumes s g.memory scene.entity id c

variable {run : Runner χ}

theorem Obeys.untouched (nested : t.Nested) (hs : t.slot? id = some s) (obeys : t.Obeys scene run s)
    (hc : c ∈ s.children) (hc' : c' ∈ s.children) (hne : c' ≠ c) : t.Untouched scene f (run c f).2 c' :=
  untouched_of_within nested hs hc' hc hne (obeys.within c hc f)

theorem sequenceFrom_leaves (nested : t.Nested) (hs : t.slot? id = some s) (obeys : t.Obeys scene run s)
    (hk : s.kind = .sequence) {i : Nat} {cs last} (hcs : s.children.drop i = cs)
    (hidle : ∀ c ∈ s.children, cs.head? ≠ some c → t.Idle scene f c)
    (hhead : ∀ c, cs.head? = some c → t.Waiting scene f c) :
    t.Leaves scene id s (t.sequenceFrom scene run id i cs last f).1
      (t.sequenceFrom scene run id i cs last f).2 := by
  induction cs generalizing i last f with
  | nil =>
      intro c hc
      exact .inl (idle_resetBelow nested hs hc (hidle c hc (by simp)).2)
  | cons c cs ih =>
      obtain ⟨hi, htail⟩ := drop_eq_cons hcs
      have hc : c ∈ s.children := List.mem_of_getElem? hi
      have hwait := hhead c rfl
      have hlive := obeys.live c hc f hwait
      have hsilent := obeys.silent c hc f hwait
      have hquiet := obeys.quiet c hc f hwait
      have hothers : ∀ c' ∈ s.children, c' ≠ c → t.Idle scene (run c f).2 c' := fun c' hc' hne =>
        (obeys.untouched nested hs hc hc' hne).idle (hidle c' hc' (by simpa using Ne.symm hne))
      simp only [sequenceFrom]
      rcases hr : run c f with ⟨r, g⟩
      simp only [hr] at hlive hsilent hquiet hothers
      have hallIdle : r ≠ .running → r ≠ .cannotExecute → ∀ c' ∈ s.children, t.Idle scene g c' := by
        intro hne hne' c' hc'
        by_cases heq : c' = c
        · subst heq
          exact ⟨hquiet hne fun h => absurd h hne', hsilent hne⟩
        · exact hothers c' hc' heq
      have hallSilent : r ≠ .running → ∀ c' ∈ s.children, t.Silent g c' := by
        intro hne c' hc'
        by_cases heq : c' = c
        · subst heq; exact hsilent hne
        · exact (hothers c' hc' heq).2
      cases r with
      | running =>
          intro c' hc'
          have hsel : t.Untouched scene g (g.setSelected scene id (some i)) c' :=
            untouched_setSelected nested hs hc'
          by_cases heq : c' = c
          · subst heq
            refine .inr ⟨rfl, hsel.live nested (hlive rfl), ?_⟩
            simp only [Resumes, hk]
            exact ⟨i, Memory.selected_setSelected, hi⟩
          · exact .inl (hsel.idle (hothers c' hc' heq))
      | cannotExecute | failed =>
          intro c' hc'
          exact .inl (idle_resetBelow nested hs hc' (hallSilent (by simp) c' hc'))
      | exception => exact fun c' hc' => .inl (hallIdle (by simp) (by simp) c' hc')
      | unknown | finished =>
          have hidle' := hallIdle (by simp) (by simp)
          refine ih htail (fun c' hc' _ => hidle' c' hc') fun c' hhd => (hidle' c' ?_).waiting nested
          exact List.mem_of_mem_drop (htail ▸ List.mem_of_mem_head? hhd : c' ∈ s.children.drop (i + 1))

theorem priorityFrom_leaves (nested : t.Nested) (hs : t.slot? id = some s) (obeys : t.Obeys scene run s)
    (hk : s.kind = .prioritySelector) {i : Nat} {cs} (hcs : s.children.drop i = cs)
    (hdone : ∀ c ∈ s.children, c ∉ cs → t.Idle scene f c) (hwait : ∀ c ∈ cs, t.Waiting scene f c) :
    (∀ c ∈ s.children, c ∉ (t.priorityFrom scene run id i cs f).2.1 →
      t.Idle scene (t.priorityFrom scene run id i cs f).2.2 c ∨
        (t.priorityFrom scene run id i cs f).1 = .running ∧
          t.Live scene (t.priorityFrom scene run id i cs f).2.2 c ∧
            Resumes s (t.priorityFrom scene run id i cs f).2.2.memory scene.entity id c) ∧
      ∀ c ∈ (t.priorityFrom scene run id i cs f).2.1,
        c ∈ s.children ∧ t.Silent (t.priorityFrom scene run id i cs f).2.2 c := by
  induction cs generalizing i f with
  | nil => exact ⟨fun c hc _ => .inl (hdone c hc (by simp)), by simp [priorityFrom]⟩
  | cons c cs ih =>
      obtain ⟨hi, htail⟩ := drop_eq_cons hcs
      have hc : c ∈ s.children := List.mem_of_getElem? hi
      have hnodup : (c :: cs).Nodup := hcs ▸ (nested.nodup hs).sublist (List.drop_sublist _ _)
      have hrest : ∀ c' ∈ cs, c' ∈ s.children ∧ c' ≠ c := fun c' hc' =>
        ⟨List.mem_of_mem_drop (htail ▸ hc' : c' ∈ s.children.drop (i + 1)),
          fun h => (List.nodup_cons.mp hnodup).1 (h ▸ hc')⟩
      have hwaitc := hwait c (by simp)
      have hlive := obeys.live c hc f hwaitc
      have hsilent := obeys.silent c hc f hwaitc
      have hothers : ∀ c' ∈ s.children, c' ≠ c → t.Untouched scene f (run c f).2 c' := fun c' hc' hne =>
        obeys.untouched nested hs hc hc' hne
      simp only [priorityFrom]
      rcases hr : run c f with ⟨r, g⟩
      simp only [hr] at hlive hsilent hothers
      have hselect : ∀ o, ∀ c' ∈ s.children, c' ≠ c → t.Untouched scene f (g.setSelected scene id o) c' :=
        fun o c' hc' hne => (hothers c' hc' hne).trans (untouched_setSelected nested hs hc')
      -- a child that is done is forgotten, before or after the selection is
      have hreset : ∀ c' ∈ s.children, c' ≠ c →
          t.Untouched scene f (t.reset scene c (g.setSelected scene id none)) c' ∧
          t.Untouched scene f ((t.reset scene c g).setSelected scene id none) c' := fun c' hc' hne =>
        ⟨(hselect none c' hc' hne).trans (untouched_reset nested hs hc' hc hne),
          ((hothers c' hc' hne).trans (untouched_reset nested hs hc' hc hne)).trans
            (untouched_setSelected nested hs hc')⟩
      cases r with
      | running =>
          refine ⟨fun c' hc' hnot => ?_, fun c' hc' => ?_⟩
          · by_cases heq : c' = c
            · subst heq
              have hsel : t.Untouched scene g (g.setSelected scene id (some i)) c' :=
                untouched_setSelected nested hs hc'
              refine .inr ⟨rfl, hsel.live nested (hlive rfl), ?_⟩
              simp only [Resumes, hk]
              exact ⟨i, Memory.selected_setSelected, hi⟩
            · exact .inl ((hselect _ c' hc' heq).idle (hdone c' hc' (by simp [heq, hnot])))
          · obtain ⟨hmem, hne⟩ := hrest c' hc'
            exact ⟨hmem, (hselect _ c' hmem hne).silent (hwait c' (by simp [hc'])).2⟩
      | cannotExecute | failed =>
          have hidle : t.Idle scene ((t.reset scene c g).setSelected scene id none) c :=
            (untouched_setSelected nested hs hc).idle (idle_reset (hsilent (by simp)))
          refine ih htail (fun c' hc' hnot => ?_) fun c' hc' => ?_
          · by_cases heq : c' = c
            · subst heq; exact hidle
            · exact (hreset c' hc' heq).2.idle (hdone c' hc' (by simp [heq, hnot]))
          · obtain ⟨hmem, hne⟩ := hrest c' hc'
            exact (hreset c' hmem hne).2.waiting nested (hwait c' (by simp [hc']))
      | unknown | finished | exception =>
          have hidle : t.Idle scene (t.reset scene c (g.setSelected scene id none)) c :=
            idle_reset ((untouched_setSelected nested hs hc).silent (hsilent (by simp)))
          refine ⟨fun c' hc' hnot => .inl ?_, fun c' hc' => ?_⟩
          · by_cases heq : c' = c
            · subst heq; exact hidle
            · exact (hreset c' hc' heq).1.idle (hdone c' hc' (by simp [heq, hnot]))
          · obtain ⟨hmem, hne⟩ := hrest c' hc'
            exact ⟨hmem, (hreset c' hmem hne).1.silent (hwait c' (by simp [hc'])).2⟩

theorem prioritySelector_leaves (nested : t.Nested) (hs : t.slot? id = some s) (obeys : t.Obeys scene run s)
    (hk : s.kind = .prioritySelector) (hwait : ∀ c ∈ s.children, t.Waiting scene f c) :
    t.Leaves scene id s (t.prioritySelector scene run id s.children f).1
      (t.prioritySelector scene run id s.children f).2 := by
  simp only [prioritySelector]
  generalize min ((f.selected scene id).getD 0) s.children.length = n
  have htake : ∀ c ∈ s.children.take n, c ∈ s.children := fun c hc => List.mem_of_mem_take hc
  have hdone : ∀ c ∈ s.children, c ∉ s.children.drop n →
      t.Idle scene (t.resetAll scene (s.children.take n) f) c := by
    intro c hc hnot
    refine idle_resetAll nested hs htake (fun c' hc' => (hwait c' (htake c' hc')).2) ?_
    rw [← List.take_append_drop n s.children] at hc
    exact (List.mem_append.mp hc).resolve_right hnot
  have hrest : ∀ c ∈ s.children.drop n, t.Waiting scene (t.resetAll scene (s.children.take n) f) c := by
    intro c hc
    have hmem := List.mem_of_mem_drop hc
    have hnot := not_mem_take (nested.nodup hs) hc
    exact (untouched_resetAll nested hs hmem htake hnot).waiting nested (hwait c hmem)
  obtain ⟨hleft, huntried⟩ := priorityFrom_leaves nested hs obeys hk rfl hdone hrest
  intro c hc
  by_cases hin : c ∈ (t.priorityFrom scene run id n (s.children.drop n)
      (t.resetAll scene (s.children.take n) f)).2.1
  · exact .inl (idle_resetAll nested hs (fun c hc => (huntried c hc).1) (fun c hc => (huntried c hc).2) hin)
  · have hun {g} := @untouched_resetAll _ t scene g id c s nested hs hc _ (fun c hc => (huntried c hc).1) hin
    rcases hleft c hc hin with hidle | ⟨hrun, hlive, hres⟩
    · exact .inl (hun.idle hidle)
    · have hself {g : Frame χ} {e} := @agree_resetAll _ t scene g id e _
        fun c hc hin => nested.self_not_mem_child hs (huntried c hc).1 hin.1
      exact .inr ⟨hrun, hun.live nested hlive, hres.congr hself.selected hself.2⟩

theorem parallelFrom_leaves (nested : t.Nested) (hs : t.slot? id = some s) (obeys : t.Obeys scene run s)
    {cs : List NodeId} {running : Bool} (hcs : ∀ c ∈ cs, c ∈ s.children) (hnodup : cs.Nodup)
    (hdone : ∀ c ∈ s.children, c ∉ cs → t.Idle scene f c ∨ running = true ∧ t.Live scene f c)
    (hwait : ∀ c ∈ cs, t.Waiting scene f c) :
    ∀ c ∈ s.children, t.Idle scene (t.parallelFrom scene run cs running f).2 c ∨
      (t.parallelFrom scene run cs running f).1 = true ∧
        t.Live scene (t.parallelFrom scene run cs running f).2 c := by
  induction cs generalizing running f with
  | nil => exact fun c hc => hdone c hc (by simp)
  | cons c cs ih =>
      have hc := hcs c (by simp)
      have hcs' : ∀ c' ∈ cs, c' ∈ s.children := fun c' hc' => hcs c' (by simp [hc'])
      have hrest : ∀ c' ∈ cs, c' ≠ c := fun c' hc' h => (List.nodup_cons.mp hnodup).1 (h ▸ hc')
      have hwaitc := hwait c (by simp)
      have hothers : ∀ c' ∈ s.children, c' ≠ c → t.Untouched scene f (run c f).2 c' := fun c' hc' hne =>
        obeys.untouched nested hs hc hc' hne
      simp only [parallelFrom]
      split
      · rename_i hr
        have hlive := obeys.live c hc f hwaitc (Status.isRunning_iff.mp hr)
        refine ih hcs' hnodup.of_cons (fun c' hc' hnot => ?_) fun c' hc' => ?_
        · by_cases heq : c' = c
          · subst heq; exact .inr ⟨rfl, hlive⟩
          · rcases hdone c' hc' (by simp [heq, hnot]) with hidle | ⟨_, hlive'⟩
            · exact .inl ((hothers c' hc' heq).idle hidle)
            · exact .inr ⟨rfl, (hothers c' hc' heq).live nested hlive'⟩
        · exact (hothers c' (hcs' c' hc') (hrest c' hc')).waiting nested (hwait c' (by simp [hc']))
      · rename_i hr
        have hidle : t.Idle scene (t.reset scene c (run c f).2) c :=
          idle_reset (obeys.silent c hc f hwaitc fun h => hr (by rw [h]; rfl))
        have hreset : ∀ c' ∈ s.children, c' ≠ c → t.Untouched scene f (t.reset scene c (run c f).2) c' :=
          fun c' hc' hne => (hothers c' hc' hne).trans (untouched_reset nested hs hc' hc hne)
        refine ih hcs' hnodup.of_cons (fun c' hc' hnot => ?_) fun c' hc' => ?_
        · by_cases heq : c' = c
          · subst heq; exact .inl hidle
          · rcases hdone c' hc' (by simp [heq, hnot]) with hidle | ⟨hrun, hlive⟩
            · exact .inl ((hreset c' hc' heq).idle hidle)
            · exact .inr ⟨hrun, (hreset c' hc' heq).live nested hlive⟩
        · exact (hreset c' (hcs' c' hc') (hrest c' hc')).waiting nested (hwait c' (by simp [hc']))

theorem parallel_leaves (nested : t.Nested) (hs : t.slot? id = some s) (obeys : t.Obeys scene run s)
    (hk : s.kind = .parallel) (hwait : ∀ c ∈ s.children, t.Waiting scene f c) :
    t.Leaves scene id s (t.parallel scene run id s.children f).1
      (t.parallel scene run id s.children f).2 := by
  have hall := @parallelFrom_leaves _ t scene f id s run nested hs obeys _ false (fun _ hc => hc)
    (nested.nodup hs) (fun c hc hnot => absurd hc hnot) hwait
  intro c hc
  have hc' := hall c hc
  simp only [parallel]
  rcases hp : t.parallelFrom scene run s.children false f with ⟨running, g⟩
  rw [hp] at hc'
  cases running with
  | true =>
      rcases hc' with hidle | ⟨_, hlive⟩
      · exact .inl hidle
      · exact .inr ⟨rfl, hlive, by simp only [Resumes, hk]⟩
  | false =>
      have hidle := hc'.resolve_right (by simp)
      exact .inl (idle_resetBelow nested hs hc hidle.2)

theorem probabilitySelector_leaves (nested : t.Nested) (hs : t.slot? id = some s)
    (obeys : t.Obeys scene run s) {weights} (hk : s.kind = .probabilitySelector weights)
    (hwait : ∀ c ∈ s.children, t.Waiting scene f c)
    (hres : ∀ c ∈ s.children, f.status scene c = .running → Resumes s f.memory scene.entity id c) :
    t.Leaves scene id s (t.probabilitySelector scene run id weights s.children f).1
      (t.probabilitySelector scene run id weights s.children f).2 := by
  simp only [probabilitySelector]
  cases hchosen : (resumable? scene id s.children f).or (choice? scene id weights s.children) with
  | none =>
      -- a running child would have been resumed
      intro c hc
      obtain ⟨s', hs'⟩ := nested.exists_slot hs hc
      refine .inl ⟨(hwait c hc).1.quiet nested hs' fun hrun => ?_, (hwait c hc).2⟩
      have hres := hres c hc hrun
      simp only [Resumes, hk] at hres
      obtain ⟨i, hsel, hi⟩ := hres
      have : resumable? scene id s.children f = some i := by
        rw [resumable?, Frame.selected_eq, hsel]
        simp [Option.filter, hi, hrun, Status.isRunning]
      simp [this] at hchosen
  | some chosen =>
      have herase : ∀ c ∈ s.children.eraseIdx chosen, c ∈ s.children := fun c hc =>
        List.mem_of_mem_eraseIdx hc
      have hidle : ∀ c ∈ s.children.eraseIdx chosen,
          t.Idle scene (t.resetAll scene (s.children.eraseIdx chosen) f) c := fun c hc =>
        idle_resetAll nested hs herase (fun c hc => (hwait c (herase c hc)).2) hc
      dsimp only
      cases hc : s.children[chosen]? with
      | none =>
          intro c hmem
          refine .inl (hidle c ?_)
          rwa [List.eraseIdx_of_length_le (List.getElem?_eq_none_iff.mp hc)]
      | some c =>
          have hmem := List.mem_of_getElem? hc
          have hnot := not_mem_eraseIdx (nested.nodup hs) hc
          have hwaitc : t.Waiting scene (t.resetAll scene (s.children.eraseIdx chosen) f) c :=
            (untouched_resetAll nested hs hmem herase hnot).waiting nested (hwait c hmem)
          have hlive := obeys.live c hmem _ hwaitc
          have hsilent := obeys.silent c hmem _ hwaitc
          have hothers : ∀ c' ∈ s.children, c' ≠ c →
              t.Idle scene (run c (t.resetAll scene (s.children.eraseIdx chosen) f)).2 c' := by
            intro c' hc' hne
            refine (obeys.untouched nested hs hmem hc' hne).idle (hidle c' ?_)
            obtain ⟨j, hj⟩ := List.getElem?_of_mem hc'
            exact List.mem_eraseIdx_iff_getElem?.mpr ⟨j, fun h => hne (by simpa [h, hc] using hj.symm), hj⟩
          dsimp only
          generalize run c (t.resetAll scene (s.children.eraseIdx chosen) f) = r at hlive hsilent hothers
          have hsel : ∀ o, ∀ c' ∈ s.children, t.Untouched scene r.2 (r.2.setSelected scene id o) c' :=
            fun o c' hc' => untouched_setSelected nested hs hc'
          intro c' hc'
          by_cases hr : r.1 = .running
          · simp only [hr, Status.isRunning, if_true]
            by_cases heq : c' = c
            · subst heq
              refine .inr ⟨trivial, (hsel _ c' hc').live nested (hlive hr), ?_⟩
              simp only [Resumes, hk]
              exact ⟨chosen, Memory.selected_setSelected, hc⟩
            · exact .inl ((hsel _ c' hc').idle (hothers c' hc' heq))
          · have hr' : r.1.isRunning = false := by
              cases h : r.1 <;> simp_all [Status.isRunning]
            simp only [hr', Bool.false_eq_true, if_false]
            by_cases heq : c' = c
            · subst heq
              exact .inl (idle_reset ((hsel _ c' hc').silent (hsilent hr)))
            · exact .inl (((hsel _ c' hc').trans (untouched_reset nested hs hc' hmem heq)).idle
                (hothers c' hc' heq))

theorem sequence_leaves (nested : t.Nested) (hs : t.slot? id = some s) (obeys : t.Obeys scene run s)
    (hk : s.kind = .sequence) (hwait : ∀ c ∈ s.children, t.Waiting scene f c)
    (hres : ∀ c ∈ s.children, f.status scene c = .running → Resumes s f.memory scene.entity id c) :
    t.Leaves scene id s (t.sequence scene run id s.children f).1
      (t.sequence scene run id s.children f).2 := by
  refine sequenceFrom_leaves nested hs obeys hk rfl (fun c hc hne => ?_) fun c hhd => ?_
  · obtain ⟨s', hs'⟩ := nested.exists_slot hs hc
    refine ⟨(hwait c hc).1.quiet nested hs' fun hrun => hne ?_, (hwait c hc).2⟩
    have hres := hres c hc hrun
    simp only [Resumes, hk] at hres
    obtain ⟨i, hsel, hi⟩ := hres
    rw [Frame.selected_eq, hsel, Option.getD_some, List.head?_drop, hi]
  · exact hwait c (List.mem_of_mem_drop (List.mem_of_mem_head? hhd))

/-- A decorator that runs its child leaves it as it is, and is running if the child is. -/
theorem head_leaves (nested : t.Nested) (hs : t.slot? id = some s) (obeys : t.Obeys scene run s)
    (hk : s.kind.isDecorator) {r : Status} (hhead : s.children.head? = some c)
    (hwait : ∀ c ∈ s.children, t.Waiting scene f c)
    (hres : ∀ c' ∈ s.children, f.status scene c' = .running → s.children.head? = some c')
    (hr : (run c f).1 = .running → r = .running ∧ Resumes s (run c f).2.memory scene.entity id c) :
    t.Leaves scene id s r (run c f).2 := by
  have hc := List.mem_of_mem_head? hhead
  intro c' hc'
  by_cases heq : c' = c
  · subst heq
    by_cases hrun : (run c' f).1 = .running
    · exact .inr ⟨(hr hrun).1, obeys.live c' hc f (hwait c' hc) hrun, (hr hrun).2⟩
    · exact .inl ⟨obeys.quiet c' hc f (hwait c' hc) hrun fun _ => hk, obeys.silent c' hc f (hwait c' hc) hrun⟩
  · obtain ⟨s', hs'⟩ := nested.exists_slot hs hc'
    refine .inl ((obeys.untouched nested hs hc hc' heq).idle ⟨(hwait c' hc').1.quiet nested hs' fun hrun => ?_,
      (hwait c' hc').2⟩)
    exact heq (Option.some.inj ((hres c' hc' hrun).symm.trans hhead))

theorem decorate_leaves (nested : t.Nested) (hs : t.slot? id = some s) (obeys : t.Obeys scene run s)
    (hk : s.kind = .invert ∨ s.kind = .succeed ∨ s.kind = .fail) {map : Status → Status}
    (hmap : map .running = .running) (hwait : ∀ c ∈ s.children, t.Waiting scene f c)
    (hres : ∀ c ∈ s.children, f.status scene c = .running → Resumes s f.memory scene.entity id c) :
    t.Leaves scene id s (decorate run map s.children f).1 (decorate run map s.children f).2 := by
  have hresumes : ∀ {m e c}, Resumes s m e id c ↔ s.children.head? = some c := by
    intro m e c
    rcases hk with hk | hk | hk <;> simp only [Resumes, hk]
  cases hhead : s.children.head? with
  | none =>
      intro c hc
      rw [List.head?_eq_none_iff] at hhead
      simp [hhead] at hc
  | some c =>
      simp only [decorate, hhead]
      refine head_leaves nested hs obeys ?_ hhead hwait (fun c' hc' hrun => hresumes.mp (hres c' hc' hrun))
        fun hrun => ⟨by rw [hrun, hmap], hresumes.mpr hhead⟩
      rcases hk with hk | hk | hk <;> simp [hk, NodeKind.isDecorator]

theorem limit_leaves (nested : t.Nested) (hs : t.slot? id = some s) (obeys : t.Obeys scene run s)
    {amount : UInt32} (hk : s.kind = .limit amount) (hwait : ∀ c ∈ s.children, t.Waiting scene f c)
    (hres : ∀ c ∈ s.children, f.status scene c = .running → Resumes s f.memory scene.entity id c) :
    t.Leaves scene id s (limit scene run id amount s.children f).1
      (limit scene run id amount s.children f).2 := by
  simp only [Resumes, hk] at hres
  cases hhead : s.children.head? with
  | none =>
      intro c hc
      rw [List.head?_eq_none_iff] at hhead
      simp [hhead] at hc
  | some c =>
      have hc := List.mem_of_mem_head? hhead
      simp only [limit, hhead]
      split
      · -- a running child would have completions left
        rename_i hdone
        intro c' hc'
        obtain ⟨s', hs'⟩ := nested.exists_slot hs hc'
        refine .inl ⟨(hwait c' hc').1.quiet nested hs' fun hrun => ?_, (hwait c' hc').2⟩
        exact absurd (hres c' hc' hrun).2 (UInt32.not_lt.mpr hdone)
      · rename_i hleft
        have hcount : (run c f).2.memory.completions id scene.entity = f.memory.completions id scene.entity :=
          ((obeys.within c hc f).agree id _ fun hin => nested.self_not_mem_child hs hc hin.1).2
        have h : t.Leaves scene id s (run c f).1 (run c f).2 := by
          refine head_leaves nested hs obeys (by simp [hk, NodeKind.isDecorator]) hhead hwait
            (fun c' hc' hrun => (hres c' hc' hrun).1) fun hrun => ⟨hrun, ?_⟩
          simp only [Resumes, hk, hcount]
          exact ⟨hhead, UInt32.not_le.mp hleft⟩
        dsimp only
        split
        · exact h
        · rename_i hrun
          intro c' hc'
          have hidle := (h c' hc').resolve_right fun hlive => hrun (by rw [hlive.1]; rfl)
          exact .inl ((untouched_complete nested hs hc').idle hidle)

theorem runTask_leaves (nested : t.Nested) (hs : t.slot? id = some s) {task : Task χ}
    (hk : s.kind = .task task) (hwait : ∀ c ∈ s.children, t.Waiting scene f c)
    (hres : ∀ c ∈ s.children, f.status scene c = .running → Resumes s f.memory scene.entity id c) :
    t.Leaves scene id s (runTask scene id task f).1 (runTask scene id task f).2 := by
  intro c hc
  obtain ⟨s', hs'⟩ := nested.exists_slot hs hc
  have hquiet : t.Quiet scene f c := (hwait c hc).1.quiet nested hs' fun hrun => by
    simpa only [Resumes, hk] using hres c hc hrun
  refine .inl (Untouched.idle ⟨fun n hn => ?_, fun n _ st => ?_⟩ ⟨hquiet, (hwait c hc).2⟩)
  · obtain ⟨timer, hm⟩ := @memory_runTask _ scene id f task
    rw [hm]
    exact Memory.agree_update fun h => nested.self_not_mem_child hs hc (h.1 ▸ hn)
  · simp [steps_runTask]

/-- However a node ran that remembers which child it left running: that child is the one it resumes. -/
theorem perform_leaves (nested : t.Nested) (hs : t.slot? id = some s) (obeys : t.Obeys scene run s)
    (hk : s.kind ≠ .randomSelector) (hwait : ∀ c ∈ s.children, t.Waiting scene f c)
    (hres : ∀ c ∈ s.children, f.status scene c = .running → Resumes s f.memory scene.entity id c) :
    t.Leaves scene id s (t.perform scene run id s f).1 (t.perform scene run id s f).2 := by
  cases hkind : s.kind with
  | sequence => simpa only [perform, hkind] using sequence_leaves nested hs obeys hkind hwait hres
  | prioritySelector => simpa only [perform, hkind] using prioritySelector_leaves nested hs obeys hkind hwait
  | probabilitySelector weights =>
      simpa only [perform, hkind] using probabilitySelector_leaves nested hs obeys hkind hwait hres
  | randomSelector => exact absurd hkind hk
  | parallel => simpa only [perform, hkind] using parallel_leaves nested hs obeys hkind hwait
  | invert =>
      simpa only [perform, hkind] using decorate_leaves nested hs obeys (.inl hkind) rfl hwait hres
  | succeed =>
      simpa only [perform, hkind] using decorate_leaves nested hs obeys (.inr (.inl hkind)) rfl hwait hres
  | fail =>
      simpa only [perform, hkind] using decorate_leaves nested hs obeys (.inr (.inr hkind)) rfl hwait hres
  | limit amount => simpa only [perform, hkind] using limit_leaves nested hs obeys hkind hwait hres
  | task task => simpa only [perform, hkind] using runTask_leaves nested hs hkind hwait hres

end Behavior.BehaviorTree
