import Behavior.Proofs.Scheduler.Tokens
/-!
# Shutting down

Of the calls that shut a scheduler down, the first to collect the threads waits for them, and the others
return at once. Made from outside, it returns when all workers have ended, and they stay so (`Closes.run`).
Together with the tokens of the jobs this says what every run of a scheduler keeps to (`single_after_run`). A call
that is overtaken, because another one collects the threads before it, promises nothing about the runs: it returns
while they are in progress (`overtaken_breaks`).
-/

namespace Behavior.Scheduler

variable {s s' : Scheduler} {a : Action} {as : List Action} {c c' : Closing}

/-- How a call that shuts down goes on. -/
inductive Advances (s : Scheduler) : Closing → Closing → Prop where
  | abort {caller first} : Advances s ⟨caller, .begun, first⟩ ⟨caller, .aborted, first⟩
  | pass {caller first} (collected : s.isCollected = true) :
      Advances s ⟨caller, .aborted, first⟩ ⟨caller, .returned, first⟩
  | collect {caller first} (uncollected : s.isCollected = false) :
      Advances s ⟨caller, .aborted, first⟩ ⟨caller, .waiting, true⟩
  | leave {caller first} (ended : s.hasEnded caller = true) :
      Advances s ⟨caller, .waiting, first⟩ ⟨caller, .returned, first⟩

def AllEnded (s : Scheduler) : Prop := ∀ h ∈ s.hands, h = .ended

/-- What a step does about the calls that shut down, and about workers that have ended. -/
inductive Closings (s s' : Scheduler) : Prop where
  | same (closings : s'.closings = s.closings) (shut : s'.isShutDown = s.isShutDown)
      (hands : s.AllEnded → s'.hands = s.hands)
  | begun (caller) (closings : s'.closings = s.closings ++ [⟨caller, .begun, false⟩]) (shut : s'.isShutDown = true)
      (hands : s'.hands = s.hands)
  | advanced {call c c'} (here : s.closings[call]? = some c) (advances : s.Advances c c')
      (closings : s'.closings = s.closings.set call c') (shut : s'.isShutDown = s.isShutDown)
      (hands : s'.hands = s.hands)

theorem AllEnded.hand (h : s.AllEnded) (worker : Nat) : s.hand worker = .ended := by
  rw [Scheduler.hand, List.getD_eq_getElem?_getD]
  cases hget : s.hands[worker]? with
  | none => rfl
  | some hand => exact h hand (List.mem_of_getElem? hget)

/-- A step of a worker, which has not ended. -/
theorem closings_hand {worker : Nat} {h : Hand} (hhand : s.hand worker = h) (hne : h ≠ .ended)
    (hclosings : s'.closings = s.closings) (hshut : s'.isShutDown = s.isShutDown) : s.Closings s' :=
  .same hclosings hshut fun hended => absurd (hhand.symm.trans (hended.hand worker)) hne

theorem closings_enqueue (deadline : Duration) (job : Nat) :
    (s.enqueue deadline job).2.closings = s.closings ∧
      (s.enqueue deadline job).2.isShutDown = s.isShutDown := by
  rw [enqueue]
  split <;> exact ⟨rfl, rfl⟩

theorem closings_step (hstep : s.step a = some s') : s.Closings s' := by
  cases a with
  | submit now delay period =>
      cases hstep
      cases hdown : s.isShutDown with
      | true =>
          simp only [submit, enqueue, hdown, if_true]
          exact .same rfl hdown.symm fun _ => rfl
      | false =>
          simp only [submit, enqueue, hdown]
          exact .same rfl hdown.symm fun _ => rfl
  | cancel job =>
      cases hstep
      exact .same rfl rfl fun _ => rfl
  | fire now =>
      simp only [step, fire] at hstep
      split at hstep
      · cases hstep
      split at hstep
      · cases hstep
      split at hstep
      · cases hstep
      · cases hstep
        split <;> exact .same rfl rfl fun _ => rfl
  | take worker =>
      simp only [step, take] at hstep
      split at hstep
      · next hhand =>
          split at hstep
          · cases hstep
            exact closings_hand hhand (by simp) rfl rfl
          · cases hstep
            exact closings_hand hhand (by simp) rfl rfl
          · cases hstep
      · cases hstep
  | check worker =>
      simp only [step, check] at hstep
      split at hstep
      · next hhand =>
          cases hstep
          exact closings_hand hhand (by simp) rfl rfl
      · cases hstep
  | start worker =>
      simp only [step, start] at hstep
      split at hstep
      · next hhand =>
          cases hstep
          exact closings_hand hhand (by simp) rfl rfl
      · cases hstep
  | finish worker =>
      simp only [step, finish] at hstep
      split at hstep
      · next hhand =>
          split at hstep
          · cases hstep
          cases hstep
          exact closings_hand hhand (by simp) rfl rfl
      · cases hstep
  | recheck worker =>
      simp only [step, recheck] at hstep
      split at hstep
      · next hhand =>
          cases hstep
          exact closings_hand hhand (by simp) rfl rfl
      · cases hstep
  | renew worker now =>
      simp only [step, renew] at hstep
      split at hstep
      · next hhand =>
          cases hstep
          have henqueue := closings_enqueue (s := s.setHand worker .free)
          exact closings_hand hhand (by simp) (henqueue _ _).1 (henqueue _ _).2
      · cases hstep
  | shutDown caller =>
      simp only [step, shutDown] at hstep
      split at hstep
      · cases hstep
        exact .begun none rfl rfl rfl
      · split at hstep
        · cases hstep
          exact .begun (some _) rfl rfl rfl
        · cases hstep
  | abort call =>
      simp only [step, abort] at hstep
      split at hstep
      · next here =>
          cases hstep
          exact .advanced here .abort rfl rfl rfl
      · cases hstep
  | collect call =>
      simp only [step, collect] at hstep
      split at hstep
      · next here =>
          cases hstep
          cases hcollected : s.isCollected with
          | true => exact .advanced here (.pass hcollected) rfl rfl rfl
          | false => exact .advanced here (.collect hcollected) rfl rfl rfl
      · cases hstep
  | leave call =>
      simp only [step, leave] at hstep
      split at hstep
      · next here =>
          split at hstep
          · next hended =>
              cases hstep
              exact .advanced here (.leave hended) rfl rfl rfl
          · cases hstep
      · cases hstep

/-! ## What holds of the calls -/

/-- What holds of a call: only who waits or has waited is first, nobody passes by unless somebody is, and a
first call from outside returns when all workers have ended. -/
structure Accounts (s : Scheduler) (c : Closing) : Prop where
  early : c.isFirst = true → c.stage = .waiting ∨ c.stage = .returned
  collected : c.stage = .waiting ∨ c.stage = .returned → s.isCollected = true
  ended : c.isFirst = true → c.caller = none → c.stage = .returned → s.AllEnded

structure Closes (s : Scheduler) : Prop where
  shut : ∀ c ∈ s.closings, s.isShutDown = true
  accounts : ∀ c ∈ s.closings, s.Accounts c

theorem closes_ofWorkers (workers : Nat) : (ofWorkers workers).Closes := by
  constructor <;> exact nofun

theorem allEnded_of_hasEnded (h : s.hasEnded none = true) : s.AllEnded := by
  intro hand hmem
  obtain ⟨w, hw, heq⟩ := List.mem_iff_getElem.mp hmem
  have hall := List.all_eq_true.mp h w (List.mem_range.mpr hw)
  simp only [reduceCtorEq, decide_false, Bool.false_or, decide_eq_true_eq] at hall
  rw [Scheduler.hand, List.getD_eq_getElem _ _ hw, heq] at hall
  exact hall

theorem Advances.isFirst (h : s.Advances c c') (hfirst : c.isFirst = true) : c'.isFirst = true := by
  cases h with
  | collect _ => rfl
  | _ => exact hfirst

theorem isCollected_set {call : Nat} (here : s.closings[call]? = some c) (h : s.Advances c c')
    (hclosings : s'.closings = s.closings.set call c') (hcollected : s.isCollected = true) :
    s'.isCollected = true := by
  obtain ⟨d, hmem, hd⟩ := List.any_eq_true.mp hcollected
  rw [isCollected, hclosings, List.any_eq_true]
  cases mem_set_or_eq here hmem c' with
  | inl hother => exact ⟨d, hother, hd⟩
  | inr heq =>
      subst heq
      exact ⟨c', List.mem_set (List.getElem?_eq_some_iff.mp here).1 c', h.isFirst hd⟩

theorem Accounts.mono (h : s.Accounts c) (hcollected : s.isCollected = true → s'.isCollected = true)
    (hended : s.AllEnded → s'.AllEnded) : s'.Accounts c where
  early := h.early
  collected hc := hcollected (h.collected hc)
  ended hfirst hcaller hc := hended (h.ended hfirst hcaller hc)

theorem Advances.accounts (h : s.Advances c c') (account : s.Accounts c)
    (hcollected : s.isCollected = true → s'.isCollected = true)
    (hfirst : c'.isFirst = true → s'.isCollected = true) (hended : s.AllEnded → s'.AllEnded) :
    s'.Accounts c' := by
  cases h with
  | abort =>
      refine ⟨fun hfirst => ?_, nofun, nofun⟩
      cases account.early hfirst <;> contradiction
  | pass collected =>
      refine ⟨fun _ => .inr rfl, fun _ => hcollected collected, fun hfirst => ?_⟩
      cases account.early hfirst <;> contradiction
  | collect uncollected => exact ⟨fun _ => .inl rfl, fun _ => hfirst rfl, nofun⟩
  | leave ended =>
      refine ⟨fun _ => .inr rfl, fun _ => hcollected (account.collected (.inl rfl)), fun _ hcaller _ => ?_⟩
      cases hcaller
      exact hended (allEnded_of_hasEnded ended)

theorem Closes.step (closes : s.Closes) (hstep : s.step a = some s') : s'.Closes := by
  cases closings_step hstep with
  | same closings shut hands =>
      have hcollected : s'.isCollected = s.isCollected := by rw [isCollected, isCollected, closings]
      refine ⟨fun c hc => ?_, fun c hc => ?_⟩ <;> rw [closings] at hc
      · exact shut.trans (closes.shut c hc)
      · refine (closes.accounts c hc).mono (hcollected.trans ·) fun hended => ?_
        rw [AllEnded, hands hended]
        exact hended
  | begun caller closings shut hands =>
      refine ⟨fun _ _ => shut, fun c hc => ?_⟩
      rw [closings, List.mem_append, List.mem_singleton] at hc
      cases hc with
      | inl hold =>
          refine (closes.accounts c hold).mono (fun hcollected => ?_) fun hended => ?_
          · rw [isCollected, closings, List.any_append]
            exact Bool.or_eq_true_iff.mpr (.inl hcollected)
          · rw [AllEnded, hands]
            exact hended
      | inr hnew =>
          subst hnew
          exact ⟨nofun, nofun, nofun⟩
  | advanced here advances closings shut hands =>
      have hmem := List.mem_of_getElem? here
      have hcollected := isCollected_set here advances closings
      have hended (h : s.AllEnded) : s'.AllEnded := by
        rw [AllEnded, hands]
        exact h
      refine ⟨fun d hd => shut.trans (closes.shut _ hmem), fun d hd => ?_⟩
      have hd' := hd
      rw [closings] at hd'
      cases List.mem_or_eq_of_mem_set hd' with
      | inl hold => exact (closes.accounts d hold).mono hcollected hended
      | inr hnew =>
          subst hnew
          refine advances.accounts (closes.accounts _ hmem) hcollected (fun hfirst => ?_) hended
          exact List.any_eq_true.mpr ⟨_, hd, hfirst⟩

theorem Closes.run (closes : s.Closes) (hrun : run as s = some s') : s'.Closes :=
  run_induction Closes.step closes hrun

/-! ## Once all workers have ended -/

theorem AllEnded.step (h : s.AllEnded) (hstep : s.step a = some s') : s'.AllEnded := by
  have hhands : s'.hands = s.hands := by
    cases closings_step hstep with
    | same closings shut hands => exact hands h
    | begun caller closings shut hands => exact hands
    | advanced here advances closings shut hands => exact hands
  rw [AllEnded, hhands]
  exact h

theorem AllEnded.run (h : s.AllEnded) (hrun : run as s = some s') : s'.AllEnded :=
  run_induction AllEnded.step h hrun

theorem AllEnded.starts (h : s.AllEnded) : starts as s = [] := by
  induction as generalizing s with
  | nil => rfl
  | cons a as ih =>
      have hsilent : s.started a = [] := by
        cases a with
        | start worker => rw [started, h.hand worker]
        | _ => rfl
      cases hstep : s.step a with
      | none => rw [Scheduler.starts, hstep]
      | some t => rw [starts_of_step hstep, hsilent, ih (h.step hstep), List.append_nil]

/-- No run is in progress, and none will ever start. -/
def Silent (s : Scheduler) : Prop :=
  ∀ later s', run later s = some s' → (∀ w due, s'.hand w ≠ .running due) ∧ starts later s = []

theorem AllEnded.silent (h : s.AllEnded) : s.Silent := by
  intro later s' hlater
  refine ⟨fun w due hrunning => ?_, h.starts⟩
  rw [(h.run hlater).hand w] at hrunning
  cases hrunning

/-- Every submission is refused from now on. -/
def Refuses (s : Scheduler) : Prop :=
  ∀ later s', run later s = some s' → ∀ now delay period, (s'.submit now delay period).answer = .error .schedulerStopped

theorem answer_of_isShutDown (h : s.isShutDown = true) (now delay : Duration) (period : Option Duration) :
    (s.submit now delay period).answer = .error .schedulerStopped := by
  simp [submit, enqueue, h, Submission.answer]

theorem isShutDown_step (h : s.isShutDown = true) (hstep : s.step a = some s') : s'.isShutDown = true := by
  cases closings_step hstep with
  | same closings shut hands => exact shut.trans h
  | begun caller closings shut hands => exact shut
  | advanced here advances closings shut hands => exact shut.trans h

theorem isShutDown_run (h : s.isShutDown = true) (hrun : run as s = some s') : s'.isShutDown = true :=
  run_induction (P := (·.isShutDown = true)) isShutDown_step h hrun

/-- Submissions are refused from the moment a call has begun, whatever becomes of it. -/
theorem Closes.refuses (closes : s.Closes) (hc : c ∈ s.closings) : s.Refuses := by
  intro later s' hlater
  exact answer_of_isShutDown (isShutDown_run (closes.shut c hc) hlater)

/-- Another call has collected the threads, and it was made from within a run or still waits for them. -/
def Overtaken (s : Scheduler) (c : Closing) : Prop :=
  c.isFirst = false ∧ ∃ d ∈ s.closings, d.isFirst = true ∧ (d.caller = none → d.stage = .waiting)

theorem Closes.silent_or_overtaken (closes : s.Closes) (hc : c ∈ s.closings) (hcaller : c.caller = none)
    (hreturned : c.stage = .returned) : s.Silent ∨ s.Overtaken c := by
  cases hfirst : c.isFirst with
  | true => exact .inl ((closes.accounts c hc).ended hfirst hcaller hreturned).silent
  | false =>
      have hcollected := (closes.accounts c hc).collected (.inr hreturned)
      obtain ⟨d, hd, hdfirst⟩ := List.any_eq_true.mp hcollected
      have account := closes.accounts d hd
      by_cases hover : d.caller = none ∧ d.stage = .returned
      · exact .inl (account.ended hdfirst hover.1 hover.2).silent
      · refine .inr ⟨hfirst, d, hd, hdfirst, fun hdcaller => ?_⟩
        exact (account.early hdfirst).resolve_right fun hdreturned => hover ⟨hdcaller, hdreturned⟩

/-! ## What every run keeps to -/

/-- In whatever order the steps come: every job has at most one token. So no job is run by two workers at once, a
job without a period starts at most once, and a job starts at most once after it was cancelled. Once a call that
shuts down has begun, every submission is refused. When a call from outside has returned, no run is in progress and
none will ever start, unless another call has overtaken it. -/
theorem single_after_run {workers : Nat} {acts : List Action} (hrun : run acts (ofWorkers workers) = some s) :
    (s.tokens.map Token.job).Nodup ∧
    (∀ v w due due', s.hand v = .running due → s.hand w = .running due' → due.job = due'.job → v = w) ∧
    (∀ job, s.period? job = none → (starts acts (ofWorkers workers)).count job ≤ 1) ∧
    (∀ job later, (s.job? job).isSome → (starts later (s.cancel job)).count job ≤ 1) ∧
    (∀ c ∈ s.closings, s.Refuses) ∧
    ∀ c ∈ s.closings, c.caller = none → c.stage = .returned → s.Silent ∨ s.Overtaken c := by
  have start := single_ofWorkers workers
  have single := start.run hrun
  have closes := (closes_ofWorkers workers).run hrun
  refine ⟨single.nodup, fun v w due due' => single.running, fun job hperiod => ?_, fun job later hjob => ?_,
    fun c hc => closes.refuses hc, fun c hc => closes.silent_or_overtaken hc⟩
  · exact Nat.le_trans (starts_le_of_period hrun hperiod) start.tally_le
  · have cancelled : (s.cancel job).Single := single.step (a := .cancel job) rfl
    exact Nat.le_trans (starts_le_of_isCancelled (isCancelled_cancel hjob)) cancelled.tally_le

/-- A job without a period and a periodic one, which is cancelled before it is put back. -/
def twoJobs : List Action :=
  [.submit ⟨0⟩ ⟨0⟩ none, .submit ⟨0⟩ ⟨0⟩ (some leastPeriod), .fire ⟨0⟩, .fire ⟨0⟩, .take 0, .check 0, .start 0,
    .take 1, .check 1, .start 1, .finish 0, .recheck 0, .finish 1, .recheck 1, .cancel 2, .renew 1 ⟨0⟩]

def closingDown : List Action := [.shutDown none, .abort 0, .take 0, .take 1, .collect 0, .leave 0]

theorem single_after_run_closing :
    ∃ s, run (twoJobs ++ closingDown) (ofWorkers 2) = some s ∧ (s.tokens.map Token.job).Nodup ∧
      starts (twoJobs ++ closingDown) (ofWorkers 2) = [1, 2] ∧
      (s.period? 1 = none ∧ [1, 2].count 1 ≤ 1) ∧
      ((s.job? 2).isSome ∧ ∀ later, (starts later (s.cancel 2)).count 2 ≤ 1) ∧
      s.closings = [⟨none, .returned, true⟩] ∧ s.Refuses ∧ s.Silent := by
  have hrun : run (twoJobs ++ closingDown) (ofWorkers 2) = some _ := rfl
  obtain ⟨hnodup, -, honce, hcancel, hrefuses, hsilent⟩ := single_after_run hrun
  refine ⟨_, hrun, hnodup, rfl, ⟨rfl, honce 1 rfl⟩, ⟨rfl, fun later => hcancel 2 later rfl⟩, rfl, ?_, ?_⟩
  · exact hrefuses _ List.mem_cons_self
  · exact (hsilent _ List.mem_cons_self rfl rfl).resolve_right fun hovertaken => nomatch hovertaken.1

/-- Two calls from outside while one job runs and another has been let through: the second call collects the
threads before the first one does. -/
def overtaking : List Action :=
  [.submit ⟨0⟩ ⟨0⟩ none, .submit ⟨0⟩ ⟨0⟩ none, .fire ⟨0⟩, .fire ⟨0⟩, .take 0, .check 0, .start 0, .take 1, .check 1,
    .shutDown none, .shutDown none, .abort 0, .abort 1, .collect 1, .collect 0]

/-- The first call has returned; the one job still runs, and after it the other one starts. -/
theorem overtaken_breaks : ∃ s, run overtaking (ofWorkers 2) = some s ∧
    s.closings = [⟨none, .returned, false⟩, ⟨none, .waiting, true⟩] ∧ s.hand 0 = .running ⟨⟨0⟩, 1⟩ ∧
      (∃ s', run [.finish 0, .start 1] s = some s') ∧ starts [.finish 0, .start 1] s = [2] ∧ ¬s.Silent := by
  have hrun : run overtaking (ofWorkers 2) = some _ := rfl
  refine ⟨_, hrun, rfl, rfl, ⟨_, rfl⟩, rfl, fun hsilent => ?_⟩
  exact (hsilent [] _ rfl).1 0 _ rfl

end Behavior.Scheduler
