import Behavior.Proofs.Tree.Encounters
import Behavior.Proofs.Tree.Once
/-!
# Sequences

A sequence executes its children in turn, each until it has a result other than running, and resumes at the child
that it left running. What the results of the children are over any number of runs is `InTurn`; what one visit of
the sequence adds to them, and what it leaves remembered, is `Nested.sequenceTurn_execute`.
-/

namespace Behavior

variable {χ : Type}

/-! ## Results of children -/

/-- The results of children that are executed in turn, and what it comes to: a failure ends it, and otherwise the
result of the last child counts, or `last` if there is none. -/
inductive InTurn : (last : Status) → List NodeId → List (NodeId × Status) → Status → Prop where
  | done {last} : InTurn last [] [] last
  | again {last c cs results r} : InTurn last (c :: cs) results r →
      InTurn last (c :: cs) ((c, .running) :: results) r
  | next {last c cs status results r} : status = .finished ∨ status = .unknown → InTurn status cs results r →
      InTurn last (c :: cs) ((c, status) :: results) r
  | stop {last c cs status} : status = .cannotExecute ∨ status = .failed →
      InTurn last (c :: cs) [(c, status)] status

/-- The results of children that are executed in turn up to one that is left running, and the children from there
on. -/
inductive UpTo : List NodeId → List (NodeId × Status) → List NodeId → Prop where
  | here {c cs} : UpTo (c :: cs) [(c, .running)] (c :: cs)
  | next {c cs status results rest} : status = .finished ∨ status = .unknown → UpTo cs results rest →
      UpTo (c :: cs) ((c, status) :: results) rest

section

variable {last last' r : Status} {c d : NodeId} {cs ds : List NodeId} {rs rs' : List (NodeId × Status)}

theorem InTurn.of_cons (h : InTurn last (c :: cs) rs r) : InTurn last' (c :: cs) rs r := by
  generalize hcs : c :: cs = children at h
  induction h with
  | done => cases hcs
  | again _ ih => exact .again (ih hcs)
  | next hstatus h _ => exact .next hstatus h
  | stop hstatus => exact .stop hstatus

/-- A child that was left running is the first to be executed then. -/
theorem UpTo.inTurn (h : UpTo cs rs ds) (h' : InTurn last ds rs' r) : InTurn last' cs (rs ++ rs') r := by
  induction h generalizing last' with
  | here => exact .again h'.of_cons
  | next hstatus _ ih => exact .next hstatus (ih h')

theorem InTurn.mem (h : InTurn last cs rs r) : ∀ x ∈ rs, x.1 ∈ cs := by
  induction h with
  | done => exact nofun
  | again _ ih => exact List.forall_mem_cons.mpr ⟨List.mem_cons_self, ih⟩
  | next _ _ ih =>
      refine List.forall_mem_cons.mpr ⟨List.mem_cons_self, fun x hx => ?_⟩
      exact List.mem_cons_of_mem _ (ih x hx)
  | stop _ => exact List.forall_mem_singleton.mpr List.mem_cons_self

/-- No child is executed again after a result other than running. -/
theorem InTurn.pairwise (h : InTurn last cs rs r) (nodup : cs.Nodup) :
    rs.Pairwise fun x y => x.1 = y.1 → x.2 = .running := by
  induction h with
  | done => exact .nil
  | again _ ih => exact .cons (fun _ _ _ => rfl) (ih nodup)
  | next _ h ih =>
      obtain ⟨hnew, nodup⟩ := List.nodup_cons.mp nodup
      refine .cons (fun y hy heq => absurd (h.mem y hy) ?_) (ih nodup)
      rwa [← heq]
  | stop _ => exact List.pairwise_singleton _ _

theorem UpTo.no_exception (h : UpTo cs rs ds) : ∀ x ∈ rs, x.2 ≠ .exception := by
  induction h with
  | here => simp
  | next hstatus _ ih =>
      refine List.forall_mem_cons.mpr ⟨fun heq => ?_, ih⟩
      cases hstatus <;> simp_all

theorem InTurn.no_exception (h : InTurn last cs rs r) : ∀ x ∈ rs, x.2 ≠ .exception := by
  induction h with
  | done => exact nofun
  | again _ ih => exact List.forall_mem_cons.mpr ⟨nofun, ih⟩
  | next hstatus _ ih =>
      refine List.forall_mem_cons.mpr ⟨fun heq => ?_, ih⟩
      cases hstatus <;> simp_all
  | stop hstatus =>
      refine List.forall_mem_singleton.mpr fun heq => ?_
      cases hstatus <;> simp_all

theorem InTurn.ne_running (h : InTurn last cs rs r) (hlast : last ≠ .running) : r ≠ .running := by
  induction h with
  | done => exact hlast
  | again _ ih => exact ih hlast
  | next hstatus _ ih => exact ih (by cases hstatus <;> simp_all)
  | stop hstatus => cases hstatus <;> simp_all

end

namespace Step

def ended? : Step χ → Option (NodeId × Status)
  | .ended n status => some (n, status)
  | _ => none

/-- What the executions of these nodes resulted in, in order. -/
def results (nodes : List NodeId) (steps : List (Step χ)) : List (NodeId × Status) :=
  (steps.filterMap ended?).filter (·.1 ∈ nodes)

variable {nodes : List NodeId} {steps new : List (Step χ)}

@[simp] theorem results_append : results nodes (steps ++ new) = results nodes steps ++ results nodes new := by
  simp [results]

theorem mem_results {n : NodeId} {status : Status} :
    (n, status) ∈ results nodes steps ↔ n ∈ nodes ∧ .ended n status ∈ steps := by
  simp only [results, List.mem_filter, List.mem_filterMap, decide_eq_true_eq]
  constructor
  · rintro ⟨⟨st, hst, heq⟩, hn⟩
    cases st with
    | ended m r => cases heq; exact ⟨hn, hst⟩
    | began | called => cases heq
  · rintro ⟨hn, hst⟩
    exact ⟨⟨_, hst, rfl⟩, hn⟩

theorem not_ended_of_results {status : Status} (h : status ∉ (results nodes steps).map Prod.snd) :
    ∀ n ∈ nodes, .ended n status ∉ steps :=
  fun _ hn hst => h (List.mem_map_of_mem (mem_results.mpr ⟨hn, hst⟩))

theorem results_eq_nil (h : ∀ st ∈ steps, st.node ∉ nodes) : results nodes steps = [] := by
  refine List.eq_nil_iff_forall_not_mem.mpr fun x hx => ?_
  obtain ⟨hn, hst⟩ := mem_results.mp hx
  exact h _ hst hn

/-- Whether the step begins a run of the node: its guard has passed. -/
def runs (n : NodeId) : Step χ → Bool
  | .began m allowed => m = n && allowed
  | _ => false

theorem began_of_any {n : NodeId} (h : steps.any (runs n)) : .began n true ∈ steps := by
  obtain ⟨st, hst, hruns⟩ := List.any_eq_true.mp h
  cases st with
  | began m allowed =>
      simp only [runs, Bool.and_eq_true, decide_eq_true_eq] at hruns
      obtain ⟨rfl, rfl⟩ := hruns
      exact hst
  | called | ended => cases hruns

end Step

namespace BehaviorTree

open Step

variable {t : BehaviorTree χ} {scene : Scene} {run : Runner χ} {id : Nat} {s : Slot χ} {f g : Frame χ} {c : Nat}

/-! ## The steps of a node that runs -/

theorem Acts.inside (within : ∀ c ∈ s.children, ∀ g, t.Within scene c g (run c g).2) {used : List NodeId}
    (acts : t.Acts scene run id s.children f used g) :
    ∃ new, g.steps = f.steps ++ new ∧ ∀ st ∈ new, ∃ c ∈ s.children, st.node ∈ t.subtree c := by
  induction acts with
  | start => exact ⟨[], (List.append_nil _).symm, nofun⟩
  | @run used g c _ hc _ ih =>
      obtain ⟨old, hold, hinside⟩ := ih
      obtain ⟨new, hsteps, hnew⟩ := (within c hc g).steps
      refine ⟨old ++ new, by rw [hsteps, hold, List.append_assoc], fun st hst => ?_⟩
      cases List.mem_append.mp hst with
      | inl hst => exact hinside st hst
      | inr hst => exact ⟨c, hc, (hnew st hst).1⟩
  | reset _ _ ih => rwa [steps_reset]
  | resetBelow _ ih => rwa [steps_resetBelow]
  | select _ _ ih => exact ih
  | complete _ ih => exact ih

/-- A node that runs does not end itself before it is through. -/
theorem steps_perform (nested : t.Nested) (hs : t.slot? id = some s)
    (within : ∀ c ∈ s.children, ∀ g, t.Within scene c g (run c g).2) :
    ∃ body, (t.perform scene run id s f).2.steps = f.steps ++ body ∧
      ∀ st ∈ body, st.node ∈ t.subtree id ∧ ∀ r, st ≠ .ended id r := by
  by_cases hk : ∃ task, s.kind = .task task
  · obtain ⟨task, hk⟩ := hk
    simp only [perform, hk]
    exact ⟨_, steps_runTask, by simp [Step.node, taskContext, nested.mem_self hs]⟩
  · obtain ⟨used, acts⟩ := perform_acts (fun task hk' => hk ⟨task, hk'⟩) (nested.nodup hs)
    obtain ⟨body, hbody, hinside⟩ := acts.inside within
    refine ⟨body, hbody, fun st hst => ?_⟩
    obtain ⟨c, hc, hin⟩ := hinside st hst
    refine ⟨(nested.below hs hc hin).2, ?_⟩
    rintro r rfl
    exact nested.self_not_mem_child hs hc hin

/-! ## Running a sequence -/

/-- What running a sequence from some of its children on gives. -/
inductive Course (t : BehaviorTree χ) (scene : Scene) (id : NodeId) (s : Slot χ) (last : Status)
    (cs : List NodeId) (f g : Frame χ) (rs : List (NodeId × Status)) : Status → Prop where
  | waits {j} (upTo : UpTo cs rs (s.children.drop j)) (selected : g.selected scene id = some j) :
      Course t scene id s last cs f g rs .running
  | breaks {x} (hit : x ∈ rs) (exception : x.2 = .exception)
      (selected : g.selected scene id = f.selected scene id)
      (rest : ∀ c ∈ s.children, (∀ x ∈ rs, x.1 ≠ c) →
        ∀ n ∈ t.subtree c, g.memory.get? n scene.entity = f.memory.get? n scene.entity) :
      Course t scene id s last cs f g rs .exception
  | ends {r} (inTurn : InTurn last cs rs r)
      (forgotten : ∀ n ∈ t.subtree id, g.memory.get? n scene.entity = none) :
      Course t scene id s last cs f g rs r

/-- What is remembered when a child has been executed. -/
theorem Within.child (nested : t.Nested) (hs : t.slot? id = some s) (hc : c ∈ s.children)
    (within : t.Within scene c f g) :
    g.selected scene id = f.selected scene id ∧ ∀ d ∈ s.children, d ≠ c →
      ∀ n ∈ t.subtree d, g.memory.get? n scene.entity = f.memory.get? n scene.entity := by
  constructor
  · exact (within.agree id scene.entity fun hin => nested.self_not_mem_child hs hc hin.1).selected
  · intro d hd hne n hn
    exact (within.agree n scene.entity fun hin => hne (nested.apart hs hd hc hn hin.1)).1

theorem Course.next {status last r : Status} {cs : List NodeId} {h : Frame χ} {rs : List (NodeId × Status)}
    (hstatus : status = .finished ∨ status = .unknown) (hselected : g.selected scene id = f.selected scene id)
    (hothers : ∀ d ∈ s.children, d ≠ c →
      ∀ n ∈ t.subtree d, g.memory.get? n scene.entity = f.memory.get? n scene.entity)
    (course : t.Course scene id s status cs g h rs r) :
    t.Course scene id s last (c :: cs) f h ((c, status) :: rs) r := by
  cases course with
  | waits upTo selected => exact .waits (.next hstatus upTo) selected
  | breaks hit exception selected rest =>
      refine .breaks (List.mem_cons_of_mem _ hit) exception (selected.trans hselected) fun d hd hnot n hn => ?_
      have hne : d ≠ c := (hnot _ List.mem_cons_self).symm
      exact (rest d hd (fun x hx => hnot x (List.mem_cons_of_mem _ hx)) n hn).trans (hothers d hd hne n hn)
  | ends inTurn forgotten => exact .ends (.next hstatus inTurn) forgotten

/-! ## Turns -/

/-- The node is executed, with this answer of its guard and this result. -/
structure Visited (id : NodeId) (allowed : Bool) (r : Status) (steps : List (Step χ)) : Prop where
  began : ∀ b, .began id b ∈ steps ↔ b = allowed
  ended : ∀ r', .ended id r' ∈ steps ↔ r' = r

/-- What becomes of a sequence from one memory to the next, for an entity, with these steps. -/
inductive SequenceTurn (t : BehaviorTree χ) (id : NodeId) (s : Slot χ) (e : EntityId) (m m' : Memory)
    (steps : List (Step χ)) : Prop where
  | passed (apart : id ∉ executed steps) (silent : results s.children steps = [])
      (selected : m'.selected id e = m.selected id e)
  | refused (visited : Visited id false .cannotExecute steps) (silent : results s.children steps = [])
      (selected : m'.selected id e = m.selected id e)
      (below : ∀ n ∈ t.subtree id, n ≠ id → m'.get? n e = m.get? n e)
  | waits {j} (visited : Visited id true .running steps)
      (upTo : UpTo (s.children.drop ((m.selected id e).getD 0)) (results s.children steps) (s.children.drop j))
      (selected : m'.selected id e = some j)
  | breaks {d : NodeId} (visited : Visited id true .exception steps)
      (hit : (d, .exception) ∈ results s.children steps) (selected : m'.selected id e = m.selected id e)
      (rest : ∀ c ∈ s.children, c ∉ executed steps → ∀ n ∈ t.subtree c, m'.get? n e = m.get? n e)
  | ends {r} (visited : Visited id true r steps)
      (inTurn : InTurn .finished (s.children.drop ((m.selected id e).getD 0)) (results s.children steps) r)
      (selected : m'.selected id e = none) (below : ∀ n ∈ t.subtree id, n ≠ id → m'.get? n e = none)

section

variable {e : EntityId} {m m' : Memory} {steps : List (Step χ)} (turn : t.SequenceTurn id s e m m' steps)

include turn

/-- A turn in which a child ends with an exception does so too, and leaves alone where the sequence resumes and the
children that it does not execute. -/
theorem SequenceTurn.exception (hit : (c, .exception) ∈ results s.children steps) :
    Visited id true .exception steps ∧ m'.selected id e = m.selected id e ∧
      ∀ d ∈ s.children, d ∉ executed steps → ∀ n ∈ t.subtree d, m'.get? n e = m.get? n e := by
  cases turn with
  | passed _ silent | refused _ silent =>
      rw [silent] at hit
      cases hit
  | waits _ upTo => exact absurd rfl (upTo.no_exception _ hit)
  | breaks visited _ selected rest => exact ⟨visited, selected, rest⟩
  | ends _ inTurn => exact absurd rfl (inTurn.no_exception _ hit)

variable (smooth : ∀ c ∈ s.children, .ended c .exception ∉ steps)

include smooth

/-- A turn in which the sequence goes on executes none of its children, or those up to the one where it resumes. -/
theorem SequenceTurn.goesOn (waits : .began id true ∈ steps → .ended id .running ∈ steps) :
    (results s.children steps = [] ∧ m'.selected id e = m.selected id e) ∨
      ∃ j, UpTo (s.children.drop ((m.selected id e).getD 0)) (results s.children steps) (s.children.drop j) ∧
        m'.selected id e = some j := by
  cases turn with
  | passed _ silent selected | refused _ silent selected => exact .inl ⟨silent, selected⟩
  | waits _ upTo selected => exact .inr ⟨_, upTo, selected⟩
  | breaks _ hit =>
      obtain ⟨hc, hst⟩ := mem_results.mp hit
      exact absurd hst (smooth _ hc)
  | ends visited inTurn =>
      have hend := (visited.ended _).mp (waits ((visited.began _).mpr rfl))
      exact absurd hend.symm (inTurn.ne_running (by simp))

/-- A turn in which a run of the sequence comes to its end. -/
theorem SequenceTurn.over {r : Status} (began : .began id true ∈ steps) (ended : .ended id r ∈ steps)
    (hr : r ≠ .running) :
    InTurn .finished (s.children.drop ((m.selected id e).getD 0)) (results s.children steps) r ∧
      m'.selected id e = none ∧ ∀ n ∈ t.subtree id, n ≠ id → m'.get? n e = none := by
  cases turn with
  | passed apart => exact absurd (mem_executed_of_began began) apart
  | refused visited => cases (visited.began true).mp began
  | waits visited => exact absurd ((visited.ended r).mp ended) hr
  | breaks _ hit =>
      obtain ⟨hc, hst⟩ := mem_results.mp hit
      exact absurd hst (smooth _ hc)
  | ends visited inTurn selected below =>
      obtain rfl := (visited.ended r).mp ended
      exact ⟨inTurn, selected, below⟩

end

/-- The steps that a node takes when it runs, with what happens below it. -/
theorem visited_of_steps (nested : t.Nested) (hs : t.slot? id = some s) {body : List (Step χ)} (r : Status)
    (hbody : ∀ st ∈ body, ∃ c ∈ s.children, st.node ∈ t.subtree c) :
    Visited id true r (.began id true :: body ++ [.ended id r]) := by
  have hnot : ∀ st ∈ body, st.node ≠ id := by
    rintro st hst rfl
    obtain ⟨c, hc, hin⟩ := hbody st hst
    exact nested.self_not_mem_child hs hc hin
  constructor
  · intro b
    constructor
    · intro hst
      simp only [List.cons_append, List.mem_cons, List.mem_append] at hst
      rcases hst with heq | hst | heq
      · cases heq
        rfl
      · exact absurd rfl (hnot _ hst)
      · simp at heq
    · rintro rfl
      exact List.mem_cons_self
  · intro r'
    constructor
    · intro hst
      simp only [List.cons_append, List.mem_cons, List.mem_append] at hst
      rcases hst with heq | hst | heq
      · cases heq
      · exact absurd rfl (hnot _ hst)
      · simpa using heq
    · rintro rfl
      exact List.mem_append_right _ List.mem_cons_self

theorem results_of_steps (nested : t.Nested) (hs : t.slot? id = some s) (body : List (Step χ)) (r : Status) :
    results s.children (.began id true :: body ++ [.ended id r]) = results s.children body := by
  have hfirst : results s.children (.began id true :: body) = results s.children body := rfl
  rw [results_append, hfirst]
  simp [results, ended?, nested.not_mem_children hs]

/-- A sequence that ran, with its result recorded. -/
theorem Course.sequenceTurn (nested : t.Nested) (hs : t.slot? id = some s) {body : List (Step χ)} {r : Status}
    {m' : Memory}
    (course : t.Course scene id s .finished (s.children.drop ((f.selected scene id).getD 0)) f g
      (results s.children body) r)
    (hinside : ∀ st ∈ body, ∃ c ∈ s.children, st.node ∈ t.subtree c)
    (hbegun : ∀ x ∈ results s.children body, x.1 ∈ executed body)
    (hselected : m'.selected id scene.entity = g.memory.selected id scene.entity)
    (hbelow : ∀ n, n ≠ id → m'.get? n scene.entity = g.memory.get? n scene.entity) :
    t.SequenceTurn id s scene.entity f.memory m' (.began id true :: body ++ [.ended id r]) := by
  have visited := visited_of_steps nested hs r hinside
  rw [← results_of_steps nested hs body r] at course
  cases course with
  | waits upTo selected => exact .waits visited upTo (hselected.trans selected)
  | @breaks x hit exception selected rest =>
      refine .breaks (d := x.1) visited (exception ▸ hit) (hselected.trans selected) fun c hc hnot n hn => ?_
      have hne : n ≠ id := fun heq => nested.self_not_mem_child hs hc (heq ▸ hn)
      refine (hbelow n hne).trans (rest c hc (fun x hx heq => hnot ?_) n hn)
      rw [results_of_steps nested hs] at hx
      have hexecuted := hbegun x hx
      rw [heq] at hexecuted
      simp [hexecuted]
  | ends inTurn forgotten =>
      have hnone := Memory.selected_of_none (forgotten id (nested.mem_self hs))
      exact .ends visited inTurn (hselected.trans hnone) fun n hn hne => (hbelow n hne).trans (forgotten n hn)

/-! ## The surroundings of a turn -/

theorem Visited.mem_executed {allowed : Bool} {r : Status} {steps : List (Step χ)}
    (visited : Visited id allowed r steps) : id ∈ executed steps :=
  mem_executed_of_began ((visited.began allowed).mpr rfl)

theorem Visited.congr {allowed : Bool} {r : Status} {steps steps' : List (Step χ)}
    (visited : Visited id allowed r steps) (hmem : ∀ st : Step χ, st.node = id → (st ∈ steps' ↔ st ∈ steps)) :
    Visited id allowed r steps' :=
  ⟨fun b => (hmem (.began id b) rfl).trans (visited.began b),
    fun r' => (hmem (.ended id r') rfl).trans (visited.ended r')⟩

variable {e : EntityId} {m m' m₀ m₁ : Memory} {steps : List (Step χ)}

/-- A turn regards nothing but what is remembered about the sequence and below it. -/
theorem SequenceTurn.memory (nested : t.Nested) (hs : t.slot? id = some s) (turn : t.SequenceTurn id s e m m' steps)
    (hm : ∀ n ∈ t.subtree id, m.get? n e = m₀.get? n e) (hm' : ∀ n ∈ t.subtree id, m₁.get? n e = m'.get? n e) :
    t.SequenceTurn id s e m₀ m₁ steps := by
  have hself := nested.mem_self hs
  have hselected : m.selected id e = m₀.selected id e := Memory.selected_congr (hm id hself)
  have hselected' : m₁.selected id e = m'.selected id e := Memory.selected_congr (hm' id hself)
  cases turn with
  | passed apart silent selected => exact .passed apart silent (hselected'.trans (selected.trans hselected))
  | refused visited silent selected below =>
      refine .refused visited silent (hselected'.trans (selected.trans hselected)) fun n hn hne => ?_
      rw [hm' n hn, below n hn hne, hm n hn]
  | waits visited upTo selected => exact .waits visited (hselected ▸ upTo) (hselected'.trans selected)
  | breaks visited hit selected rest =>
      refine .breaks visited hit (hselected'.trans (selected.trans hselected)) fun c hc hnot n hn => ?_
      have hin := (nested.below hs hc hn).2
      rw [hm' n hin, rest c hc hnot n hn, hm n hin]
  | ends visited inTurn selected below =>
      refine .ends visited (hselected ▸ inTurn) (hselected'.trans selected) fun n hn hne => ?_
      rw [hm' n hn, below n hn hne]

/-- What happens elsewhere before and after a turn does not matter. -/
theorem SequenceTurn.surround (nested : t.Nested) (hs : t.slot? id = some s) {before after : List (Step χ)}
    (turn : t.SequenceTurn id s e m m' steps) (hbefore : ∀ st ∈ before, st.node ∉ t.subtree id)
    (hafter : ∀ st ∈ after, st.node ∉ t.subtree id) :
    t.SequenceTurn id s e m m' (before ++ steps ++ after) := by
  have hself := nested.mem_self hs
  have hchild : ∀ c ∈ s.children, c ∈ t.subtree id := fun c hc =>
    (nested.below hs hc (nested.self_mem_child hs hc)).2
  have hmem : ∀ st, st.node ∈ t.subtree id → (st ∈ before ++ steps ++ after ↔ st ∈ steps) := by
    intro st hst
    simp only [List.mem_append]
    exact ⟨fun h => (h.resolve_right fun h => hafter _ h hst).resolve_left fun h => hbefore _ h hst,
      fun h => .inl (.inr h)⟩
  have hexecuted : ∀ n ∈ t.subtree id, n ∈ executed (before ++ steps ++ after) ↔ n ∈ executed steps := fun n hn =>
    Step.mem_executed.trans ((exists_congr fun b => hmem (.began n b) hn).trans Step.mem_executed.symm)
  have hresults : results s.children (before ++ steps ++ after) = results s.children steps := by
    rw [results_append, results_append, results_eq_nil fun st hst hc => hbefore st hst (hchild _ hc),
      results_eq_nil fun st hst hc => hafter st hst (hchild _ hc), List.nil_append, List.append_nil]
  have hvisited : ∀ {allowed r}, Visited id allowed r steps → Visited id allowed r (before ++ steps ++ after) :=
    fun visited => visited.congr fun st hst => hmem st (hst ▸ hself)
  cases turn with
  | passed apart silent selected =>
      exact .passed (fun h => apart ((hexecuted id hself).mp h)) (hresults.trans silent) selected
  | refused visited silent selected below => exact .refused (hvisited visited) (hresults.trans silent) selected below
  | waits visited upTo selected => exact .waits (hvisited visited) (hresults ▸ upTo) selected
  | breaks visited hit selected rest =>
      refine .breaks (hvisited visited) (hresults ▸ hit) selected fun c hc hnot => ?_
      exact rest c hc fun h => hnot ((hexecuted c (hchild c hc)).mpr h)
  | ends visited inTurn selected below => exact .ends (hvisited visited) (hresults ▸ inTurn) selected below

/-! ## Executions -/

variable [Character χ]

theorem get?_visit {run : Runner χ} {n : Nat} (hne : n ≠ id) {e : EntityId} :
    (t.visit scene run id s f).2.memory.get? n e = (t.attempt scene run id s f).2.memory.get? n e := by
  rw [visit, Frame.memory_note, Frame.memory_record]
  exact Memory.get?_update_of_ne fun heq => hne heq.1

theorem selected_visit {run : Runner χ} :
    (t.visit scene run id s f).2.memory.selected id scene.entity =
      (t.attempt scene run id s f).2.memory.selected id scene.entity := by
  rw [visit, Frame.memory_note, Frame.memory_record, Memory.selected, Memory.getD_update_self]
  rfl

variable (scene)

/-- An execution begins the node, ends it with its result, and does not end it in between. -/
theorem Nested.steps_execute (nested : t.Nested) (hs : t.slot? id = some s) (f : Frame χ) :
    ∃ allowed body, (t.execute scene id f).2.steps =
        f.steps ++ (.began id allowed :: body ++ [.ended id (t.execute scene id f).1]) ∧
      ∀ st ∈ body, st.node ∈ t.subtree id ∧ ∀ r, st ≠ .ended id r := by
  rw [nested.execute_of_slot hs]
  simp only [visit, attempt]
  cases hallowed : (judge scene id s f).1 with
  | false => exact ⟨false, [], by simp [steps_judge, hallowed], by simp⟩
  | true =>
      have within : ∀ c ∈ s.children, ∀ g, t.Within scene c g (t.execute scene c g).2 :=
        fun c _ g => nested.within_execute c g
      obtain ⟨body, hbody, hinside⟩ := steps_perform (f := (judge scene id s f).2) nested hs within
      exact ⟨true, body, by simp [hbody, steps_judge, hallowed], hinside⟩

/-- Executing a child of a node gives one result among those of the node's children. -/
theorem Nested.results_execute (nested : t.Nested) (hs : t.slot? id = some s) (hc : c ∈ s.children) (f : Frame χ) :
    ∃ new, (t.execute scene c f).2.steps = f.steps ++ new ∧ (∀ st ∈ new, st.node ∈ t.subtree c) ∧
      results s.children new = [(c, (t.execute scene c f).1)] ∧ c ∈ executed new := by
  obtain ⟨sc, hsc⟩ := nested.exists_slot hs hc
  have hself := nested.mem_self hsc
  obtain ⟨allowed, body, hsteps, hbody⟩ := nested.steps_execute scene hsc f
  refine ⟨_, hsteps, ?_, ?_, by simp⟩
  · intro st hst
    simp only [List.cons_append, List.mem_cons, List.mem_append, List.not_mem_nil, or_false] at hst
    rcases hst with rfl | hst | rfl
    · exact hself
    · exact (hbody st hst).1
    · exact hself
  · -- another child cannot end in the subtree of this one
    have hnone : results s.children body = [] := by
      refine List.eq_nil_iff_forall_not_mem.mpr fun x hx => ?_
      obtain ⟨hchild, hst⟩ := mem_results.mp hx
      obtain ⟨hin, hended⟩ := hbody _ hst
      have heq := nested.apart hs hchild hc (nested.self_mem_child hs hchild) hin
      exact hended x.2 (by rw [← heq])
    have hfirst : results s.children (.began c allowed :: body) = [] := hnone
    rw [results_append, hfirst, List.nil_append]
    simp [results, ended?, hc]

theorem Nested.sequenceFrom_course (nested : t.Nested) (hs : t.slot? id = some s) (last : Status)
    {i : Nat} {cs : List NodeId} (hcs : s.children.drop i = cs) (f : Frame χ) :
    ∃ new, (t.sequenceFrom scene (t.execute scene) id i cs last f).2.steps = f.steps ++ new ∧
      (∀ st ∈ new, ∃ c ∈ s.children, st.node ∈ t.subtree c) ∧
      (∀ x ∈ results s.children new, x.1 ∈ executed new) ∧
      t.Course scene id s last cs f (t.sequenceFrom scene (t.execute scene) id i cs last f).2
        (results s.children new) (t.sequenceFrom scene (t.execute scene) id i cs last f).1 := by
  have hforgotten (g : Frame χ) :
      ∀ n ∈ t.subtree id, (t.resetBelow scene id g).memory.get? n scene.entity = none := by
    intro n hn
    rw [memory_resetBelow, get?_resetState, if_pos ⟨hn, rfl⟩]
  induction cs generalizing i last f with
  | nil => exact ⟨[], by simp [sequenceFrom], nofun, nofun, .ends .done (hforgotten f)⟩
  | cons c cs ih =>
      have hc : c ∈ s.children := List.mem_of_mem_drop (hcs ▸ List.mem_cons_self)
      obtain ⟨new, hsteps, hinside, hresults, hexecuted⟩ := nested.results_execute scene hs hc f
      have hwithin : t.Within scene c f (t.execute scene c f).2 := nested.within_execute c f
      obtain ⟨hselected, hothers⟩ := hwithin.child nested hs hc
      have hinside : ∀ st ∈ new, ∃ c ∈ s.children, st.node ∈ t.subtree c := fun st hst => ⟨c, hc, hinside st hst⟩
      have hbegun : ∀ x ∈ results s.children new, x.1 ∈ executed new := by
        rw [hresults]
        exact List.forall_mem_singleton.mpr hexecuted
      simp only [sequenceFrom]
      generalize t.execute scene c f = r at hsteps hresults hselected hothers
      obtain ⟨status, g⟩ := r
      dsimp only at hsteps hresults hselected hothers ⊢
      cases status with
      | running =>
          refine ⟨new, hsteps, hinside, hbegun, .waits (j := i) ?_ Memory.selected_setSelected⟩
          rw [hresults, hcs]
          exact .here
      | cannotExecute =>
          refine ⟨new, by rw [steps_resetBelow, hsteps], hinside, hbegun, .ends ?_ (hforgotten g)⟩
          rw [hresults]
          exact .stop (.inl rfl)
      | failed =>
          refine ⟨new, by rw [steps_resetBelow, hsteps], hinside, hbegun, .ends ?_ (hforgotten g)⟩
          rw [hresults]
          exact .stop (.inr rfl)
      | exception =>
          refine ⟨new, hsteps, hinside, hbegun, ?_⟩
          rw [hresults]
          refine .breaks List.mem_cons_self rfl hselected fun d hd hnot => hothers d hd ?_
          exact (hnot _ List.mem_cons_self).symm
      | unknown | finished =>
          obtain ⟨new', hsteps', hinside', hbegun', course⟩ := ih _ (drop_eq_cons hcs).2 g
          refine ⟨new ++ new', by rw [hsteps', hsteps, List.append_assoc], ?_, ?_, ?_⟩
          · exact List.forall_mem_append.mpr ⟨hinside, hinside'⟩
          · rw [results_append, executed_append]
            refine List.forall_mem_append.mpr ⟨fun x hx => ?_, fun x hx => ?_⟩
            · exact List.mem_append_left _ (hbegun x hx)
            · exact List.mem_append_right _ (hbegun' x hx)
          · rw [results_append, hresults]
            exact course.next (by simp) hselected hothers

/-- Executing a sequence is a turn of it. -/
theorem Nested.sequenceTurn_execute (nested : t.Nested) (hs : t.slot? id = some s) (hk : s.kind = .sequence)
    (f : Frame χ) :
    ∃ new, (t.execute scene id f).2.steps = f.steps ++ new ∧
      t.SequenceTurn id s scene.entity f.memory (t.execute scene id f).2.memory new := by
  rw [nested.execute_of_slot hs]
  cases hallowed : (judge scene id s f).1 with
  | false =>
      have hattempt : t.attempt scene (t.execute scene) id s f = (.cannotExecute, (judge scene id s f).2) := by
        simp [attempt, hallowed]
      refine ⟨[.began id false, .ended id .cannotExecute], ?_, .refused ⟨?_, ?_⟩ ?_ ?_ fun n _ hne => ?_⟩
      · simp [visit, hattempt, steps_judge, hallowed]
      · simp
      · simp
      · simp [results, ended?, nested.not_mem_children hs]
      · rw [selected_visit, hattempt]
        exact agree_judge.selected
      · rw [get?_visit hne, hattempt]
        exact agree_judge.1
  | true =>
      have hattempt : t.attempt scene (t.execute scene) id s f =
          t.sequence scene (t.execute scene) id s.children (judge scene id s f).2 := by
        simp [attempt, hallowed, perform, hk]
      obtain ⟨body, hsteps, hinside, hbegun, course⟩ := nested.sequenceFrom_course scene hs .finished
        (i := ((judge scene id s f).2.selected scene id).getD 0) rfl (judge scene id s f).2
      rw [sequence] at hattempt
      rw [← hattempt] at hsteps course
      have turn := course.sequenceTurn nested hs hinside hbegun selected_visit fun n hne => get?_visit hne
      refine ⟨_, ?_, turn.memory nested hs (fun _ _ => agree_judge.1) fun _ _ => rfl⟩
      simp [visit, hsteps, steps_judge, hallowed]

/-- Executing a node takes at most a turn of each sequence below it, after which that may be forgotten. -/
theorem Nested.exists_turn_execute (nested : t.Nested) (hs : t.slot? id = some s) (hk : s.kind = .sequence) {k : Nat}
    {sk : Slot χ} (hsk : t.slot? k = some sk) (hid : id ∈ t.subtree k) (f : Frame χ) :
    ∃ new m, (t.execute scene k f).2.steps = f.steps ++ new ∧
      t.SequenceTurn id s scene.entity f.memory m new ∧
      ((∀ n ∈ t.subtree id, (t.execute scene k f).2.memory.get? n scene.entity = m.get? n scene.entity) ∨
        t.Forgotten scene id (t.execute scene k f).2) := by
  rcases nested.encounters_execute hsk hid f with hmisses | ⟨f', hspares, hmisses⟩
  · obtain ⟨⟨new, hsteps, hsilent⟩, -, hafter⟩ := (hmisses : t.Misses scene id f _)
    refine ⟨new, f.memory, hsteps, .passed (fun hin => ?_) (results_eq_nil fun st hst hc => ?_) rfl, hafter⟩
    · obtain ⟨allowed, hst⟩ := mem_executed.mp hin
      exact hsilent _ hst (nested.mem_self hs)
    · exact hsilent st hst (nested.below hs hc (nested.self_mem_child hs hc)).2
  · obtain ⟨⟨before, hbefore, hquiet⟩, -, hsame⟩ := (hspares : t.Spares scene id f f')
    obtain ⟨⟨after, hafter, hquiet'⟩, -, hend⟩ := hmisses
    obtain ⟨new, hnew, turn⟩ := nested.sequenceTurn_execute scene hs hk f'
    refine ⟨before ++ new ++ after, _, ?_, ?_, hend⟩
    · rw [hafter, hnew, hbefore, List.append_assoc, List.append_assoc, List.append_assoc]
    · exact (turn.surround nested hs hquiet hquiet').memory nested hs hsame fun _ _ => rfl

end BehaviorTree

end Behavior
