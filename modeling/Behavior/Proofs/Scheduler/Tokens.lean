import Behavior.Scheduler
import Mathlib.Data.List.GetD
import Mathlib.Data.List.Nodup
import Mathlib.Data.List.Perm.Subperm
/-!
# Tokens of jobs

An accepted job goes round as a token: it is a deadline of the timer, then an item of the queue, and then in
the hand of a worker. A step passes one token on, loses some, or issues one for a new job (`moves_step`).
Hence no job ever has two tokens (`Single.run`), and what a job has yet to start only gets less
(`tally_step`).
-/

namespace Behavior

open List (Perm)

theorem mem_set_or_eq {α : Type} {l : List α} {i : Nat} {a b : α} (ha : l[i]? = some a) (hb : b ∈ l) (c : α) :
    b ∈ l.set i c ∨ b = a := by
  obtain ⟨k, hk⟩ := List.mem_iff_getElem?.mp hb
  by_cases heq : i = k
  · subst heq
    exact .inr (Option.some.inj (hk.symm.trans ha))
  · exact .inl (List.mem_of_getElem? ((List.getElem?_set_ne heq).trans hk))

namespace Scheduler

/-- Where a token is. -/
inductive Stage where
  | scheduled
  | ready
  | taken
  | cleared
  | running
  | ran
  | renewing
  deriving DecidableEq

structure Token where
  stage : Stage
  job : Nat
  deriving DecidableEq

def handToken? : Hand → Option Token
  | .free => none
  | .taken due => some ⟨.taken, due.job⟩
  | .cleared due => some ⟨.cleared, due.job⟩
  | .running due => some ⟨.running, due.job⟩
  | .ran due => some ⟨.ran, due.job⟩
  | .renewing due => some ⟨.renewing, due.job⟩
  | .ended => none

variable (s : Scheduler)

/-- The tokens that no worker has in hand. -/
def waitingTokens : List Token :=
  s.timers.map (fun t => ⟨.scheduled, t.job⟩) ++ s.ready.items.map fun due => ⟨.ready, due.job⟩

def tokens : List Token := s.waitingTokens ++ s.hands.filterMap handToken?

/-- The tokens that a worker does not have in hand. -/
def otherTokens (worker : Nat) : List Token :=
  s.waitingTokens ++
    ((s.hands.take worker).filterMap handToken? ++ (s.hands.drop (worker + 1)).filterMap handToken?)

/-- The jobs whose runs a step starts. -/
def started : Action → List Nat
  | .start worker => match s.hand worker with
    | .cleared due => [due.job]
    | _ => []
  | _ => []

/-- The jobs whose runs start along a run of the scheduler, in order. -/
def starts : List Action → Scheduler → List Nat
  | [], _ => []
  | a :: as, s => match s.step a with
    | some s' => s.started a ++ starts as s'
    | none => []

/-- How a step passes on the token of a job. -/
inductive Passes (job : Nat) : Action → Stage → Stage → Prop where
  | fire (now) : Passes job (.fire now) .scheduled .ready
  | take (worker) : Passes job (.take worker) .ready .taken
  | check (worker) (kept : s.isCancelled job = false) : Passes job (.check worker) .taken .cleared
  | start (worker) (starts : s.started (.start worker) = [job]) : Passes job (.start worker) .cleared .running
  | finish (worker) : Passes job (.finish worker) .running .ran
  | recheck (worker) (periodic : s.period? job ≠ none) : Passes job (.recheck worker) .ran .renewing
  | renew (worker now) : Passes job (.renew worker now) .renewing .scheduled

/-- What is known about a job stays known. -/
structure Keeps (s' : Scheduler) : Prop where
  period : ∀ job period, s.period? job = some period → s'.period? job = some period
  cancelled : ∀ job, s.isCancelled job = true → s'.isCancelled job = true

/-- What a step does to the tokens. -/
inductive Moves (a : Action) (s' : Scheduler) : Prop where
  | passed {job old new rest} (passes : s.Passes job a old new) (before : Perm s.tokens (⟨old, job⟩ :: rest))
      (after : Perm s'.tokens (⟨new, job⟩ :: rest)) (next : s'.nextJob = s.nextJob) (keeps : s.Keeps s')
  | lost (silent : s.started a = []) (after : List.Subperm s'.tokens s.tokens) (next : s.nextJob ≤ s'.nextJob)
      (keeps : s.Keeps s')
  | issued (silent : s.started a = []) (after : Perm s'.tokens (⟨.scheduled, s.nextJob⟩ :: s.tokens))
      (next : s'.nextJob = s.nextJob + 1) (keeps : s.Keeps s')

variable {s} {s' : Scheduler} {a : Action} {worker job : Nat} {h h' : Hand} {now : Duration}

/-! ## What is known -/

theorem Keeps.of_append {jobs : List Job} (hjobs : s'.jobs = s.jobs ++ jobs) : s.Keeps s' := by
  have hjob {job : Nat} {j : Job} (h : s.job? job = some j) : s'.job? job = some j := by
    rw [job?, hjobs, List.find?_append, ← job?, h]
    rfl
  constructor
  · intro job period h
    obtain ⟨j, hj, hperiod⟩ := Option.bind_eq_some_iff.mp h
    rw [period?, hjob hj]
    exact hperiod
  · intro job h
    obtain ⟨j, hj, hcancelled⟩ := (Option.any_eq_true _ _).mp h
    rw [isCancelled, hjob hj]
    exact hcancelled

theorem Keeps.of_jobs (hjobs : s'.jobs = s.jobs) : s.Keeps s' := .of_append (hjobs.trans (List.append_nil _).symm)

/-- A cancelled job is the same but for that. -/
theorem job?_cancel (id : Nat) :
    (s.cancel id).job? job =
      (s.job? job).map fun j => if j.id = id then { j with cancelled := true } else j := by
  rw [job?, cancel, List.find?_map]
  congr 2
  funext j
  simp only [Function.comp]
  split <;> rfl

theorem keeps_cancel (id : Nat) : s.Keeps (s.cancel id) := by
  constructor
  · intro job period h
    obtain ⟨j, hj, hperiod⟩ := Option.bind_eq_some_iff.mp h
    rw [period?, job?_cancel, hj]
    simp only [Option.map_some, Option.bind_some]
    split <;> exact hperiod
  · intro job h
    obtain ⟨j, hj, hcancelled⟩ := (Option.any_eq_true _ _).mp h
    rw [isCancelled, job?_cancel, hj]
    simp only [Option.map_some, Option.any_some]
    split
    · rfl
    · exact hcancelled

theorem isCancelled_cancel (hjob : (s.job? job).isSome) : (s.cancel job).isCancelled job = true := by
  obtain ⟨j, hj⟩ := Option.isSome_iff_exists.mp hjob
  have hid : j.id = job := by simpa using List.find?_some hj
  simp [isCancelled, job?_cancel, hj, hid]

/-! ## What one step does -/

theorem lt_length_hands (hhand : s.hand worker = h) (hne : h ≠ .ended) : worker < s.hands.length := by
  refine Nat.lt_of_not_le fun hle => hne ?_
  rw [← hhand, hand, List.getD_eq_default _ _ hle]

theorem tokens_setHand (hlt : worker < s.hands.length) :
    Perm (s.setHand worker h).tokens ((handToken? h).toList ++ s.otherTokens worker) := by
  have hset : (s.setHand worker h).tokens = s.waitingTokens ++ ((s.hands.take worker).filterMap handToken? ++
      ((handToken? h).toList ++ (s.hands.drop (worker + 1)).filterMap handToken?)) := by
    simp only [tokens, setHand, waitingTokens, List.set_eq_take_append_cons_drop, hlt, if_true,
      List.filterMap_append, List.filterMap_cons]
    cases handToken? h <;> rfl
  rw [hset, otherTokens]
  refine (List.Perm.append_left _ (List.perm_append_comm_assoc _ _ _)).trans ?_
  exact List.perm_append_comm_assoc _ _ _

theorem tokens_of_hand (hhand : s.hand worker = h) (hne : h ≠ .ended) :
    Perm s.tokens ((handToken? h).toList ++ s.otherTokens worker) := by
  have hlt := lt_length_hands hhand hne
  have hself : s.setHand worker h = s := by
    have : s.hands[worker] = h := by rw [← hhand, hand, List.getD_eq_getElem _ _ hlt]
    simp [setHand, ← this]
  have hset := tokens_setHand (h := h) hlt
  rwa [hself] at hset

theorem moves_setHand (hhand : s.hand worker = h) (hne : h ≠ .ended) {old new : Stage}
    (hold : handToken? h = some ⟨old, job⟩) (hnew : handToken? h' = some ⟨new, job⟩)
    (passes : s.Passes job a old new) : s.Moves a (s.setHand worker h') := by
  have before := tokens_of_hand hhand hne
  have after := tokens_setHand (h := h') (lt_length_hands hhand hne)
  rw [hold] at before
  rw [hnew] at after
  exact .passed passes before after rfl (.of_jobs rfl)

theorem subperm_setHand (hhand : s.hand worker = h) (hne : h ≠ .ended) (hfree : handToken? h' = none) :
    List.Subperm (s.setHand worker h').tokens s.tokens := by
  have before := tokens_of_hand hhand hne
  have after := tokens_setHand (h := h') (lt_length_hands hhand hne)
  rw [hfree] at after
  exact after.subperm.trans ((List.sublist_append_right _ _).subperm.trans before.symm.subperm)

theorem tokens_of_timers {deadline : Duration} {number : Nat}
    (htimers : Perm s'.timers (⟨deadline, number, job⟩ :: s.timers))
    (hready : s'.ready = s.ready) (hhands : s'.hands = s.hands) :
    Perm s'.tokens (⟨.scheduled, job⟩ :: s.tokens) := by
  have hmap := htimers.map fun t => (⟨.scheduled, t.job⟩ : Token)
  rw [tokens, tokens, waitingTokens, waitingTokens, hready, hhands]
  exact (hmap.append_right _).append_right _

theorem tokens_of_ready {deadline : Duration}
    (hready : Perm s'.ready.items (⟨deadline, job⟩ :: s.ready.items))
    (htimers : s'.timers = s.timers) (hhands : s'.hands = s.hands) :
    Perm s'.tokens (⟨.ready, job⟩ :: s.tokens) := by
  have hmap := hready.map fun due => (⟨.ready, due.job⟩ : Token)
  rw [tokens, tokens, waitingTokens, waitingTokens, htimers, hhands]
  exact ((hmap.append_left _).trans List.perm_middle).append_right _

theorem tokens_enqueue (hup : s.isShutDown = false) (deadline : Duration) (job : Nat) :
    Perm (s.enqueue deadline job).2.tokens (⟨.scheduled, job⟩ :: s.tokens) := by
  rw [enqueue, hup]
  exact tokens_of_timers (List.perm_append_singleton _ _) rfl rfl

theorem tokens_push {due : Due} (hopen : s.ready.aborted = false) :
    Perm { s with ready := (s.ready.push due).2 }.tokens (⟨.ready, due.job⟩ :: s.tokens) := by
  rw [Queue.push, hopen]
  exact tokens_of_ready (List.perm_append_singleton _ _) rfl rfl

theorem mem_of_first? {timers : List Timer} {timer : Timer} (h : first? timers = some timer) :
    timer ∈ timers := by
  induction timers generalizing timer with
  | nil => cases h
  | cons t ts ih =>
      simp only [first?] at h
      cases hfirst : first? ts with
      | none =>
          rw [hfirst] at h
          cases h
          exact List.mem_cons_self
      | some u =>
          simp only [hfirst] at h
          split at h
          · cases h
            exact List.mem_cons_of_mem _ (ih hfirst)
          · cases h
            exact List.mem_cons_self

theorem moves_submit (delay : Duration) (period : Option Duration) :
    s.Moves (.submit now delay period) (s.submit now delay period).scheduler := by
  cases hdown : s.isShutDown with
  | true =>
      simp only [submit, enqueue, hdown, if_true]
      exact .lost rfl (Perm.refl _).subperm (Nat.le_succ _) (.of_jobs rfl)
  | false =>
      have after := tokens_enqueue (s := { s with nextJob := s.nextJob + 1 }) hdown (now + delay) s.nextJob
      rw [enqueue, hdown] at after
      rw [submit, enqueue, hdown]
      exact .issued rfl after rfl (.of_append rfl)

theorem moves_fire (hstep : s.fire now = some s') : s.Moves (.fire now) s' := by
  simp only [fire] at hstep
  split at hstep
  · cases hstep
  split at hstep
  · cases hstep
  · next timer hfirst =>
      split at hstep
      · cases hstep
      cases hstep
      have before : Perm s.tokens (⟨.scheduled, timer.job⟩ :: { s with timers := s.timers.erase timer }.tokens) :=
        tokens_of_timers (List.perm_cons_erase (mem_of_first? hfirst)) rfl rfl
      have dropped := (List.sublist_cons_self _ _).subperm.trans before.symm.subperm
      split
      · exact .lost rfl dropped (Nat.le_refl _) (.of_jobs rfl)
      · cases hopen : s.ready.aborted with
        | true =>
            rw [Queue.push, hopen]
            exact .lost rfl dropped (Nat.le_refl _) (.of_jobs rfl)
        | false =>
            refine .passed (.fire now) before ?_ rfl (.of_jobs rfl)
            exact tokens_push (s := { s with timers := s.timers.erase timer }) hopen

theorem moves_take (hstep : s.take worker = some s') : s.Moves (.take worker) s' := by
  simp only [take, Queue.waitPop] at hstep
  split at hstep
  · next hhand =>
      split at hstep
      · next due ready hpop =>
          split at hpop
          · cases hpop
          split at hpop
          · cases hpop
          · next items hitems =>
              cases hpop
              cases hstep
              have before :
                  Perm s.tokens (⟨.ready, due.job⟩ :: { s with ready := { s.ready with items } }.tokens) :=
                tokens_of_ready (by rw [hitems]) rfl rfl
              have free := tokens_of_hand (s := { s with ready := { s.ready with items } }) hhand nofun
              exact .passed (.take worker) (before.trans (free.cons _))
                (tokens_setHand (lt_length_hands hhand nofun)) rfl (.of_jobs rfl)
      · cases hstep
        exact .lost rfl (subperm_setHand hhand nofun rfl) (Nat.le_refl _) (.of_jobs rfl)
      · cases hstep
  · cases hstep

theorem moves_check (hstep : s.check worker = some s') : s.Moves (.check worker) s' := by
  simp only [check] at hstep
  split at hstep
  · next due hhand =>
      cases hstep
      cases hcancelled : s.isCancelled due.job with
      | true => exact .lost rfl (subperm_setHand hhand nofun rfl) (Nat.le_refl _) (.of_jobs rfl)
      | false => exact moves_setHand hhand nofun rfl rfl (.check worker hcancelled)
  · cases hstep

theorem moves_start (hstep : s.start worker = some s') : s.Moves (.start worker) s' := by
  simp only [start] at hstep
  split at hstep
  · next due hhand =>
      cases hstep
      exact moves_setHand hhand nofun rfl rfl (.start worker (by simp [started, hhand]))
  · cases hstep

theorem moves_finish (hstep : s.finish worker = some s') : s.Moves (.finish worker) s' := by
  simp only [finish] at hstep
  split at hstep
  · next due hhand =>
      split at hstep
      · cases hstep
      cases hstep
      exact moves_setHand hhand nofun rfl rfl (.finish worker)
  · cases hstep

theorem moves_recheck (hstep : s.recheck worker = some s') : s.Moves (.recheck worker) s' := by
  simp only [recheck] at hstep
  split at hstep
  · next due hhand =>
      cases hstep
      split
      · exact .lost rfl (subperm_setHand hhand nofun rfl) (Nat.le_refl _) (.of_jobs rfl)
      · next hkept =>
          refine moves_setHand hhand nofun rfl rfl (.recheck worker fun hnone => hkept ?_)
          rw [hnone]
          rfl
  · cases hstep

theorem moves_renew (hstep : s.renew worker now = some s') : s.Moves (.renew worker now) s' := by
  simp only [renew] at hstep
  split at hstep
  · next due hhand =>
      cases hstep
      have before := tokens_of_hand hhand nofun
      have after := tokens_setHand (h := .free) (lt_length_hands hhand nofun)
      cases hdown : s.isShutDown with
      | true =>
          simp only [enqueue, setHand, hdown, if_true]
          exact .lost rfl (subperm_setHand hhand nofun rfl) (Nat.le_refl _) (.of_jobs rfl)
      | false =>
          have enqueued := tokens_enqueue (s := s.setHand worker .free) hdown
          have after := (enqueued ((due.deadline + (s.period? due.job).getD leastPeriod).max now) due.job).trans
            (after.cons _)
          refine .passed (.renew worker now) before after ?_ (.of_jobs ?_) <;>
            simp only [enqueue, setHand, hdown, Bool.false_eq_true, if_false]
  · cases hstep

/-- A step that at most forgets deadlines and items. -/
theorem moves_forget (silent : s.started a = []) (keeps : s.Keeps s') (htimers : List.Sublist s'.timers s.timers)
    (hready : List.Sublist s'.ready.items s.ready.items) (hhands : s'.hands = s.hands)
    (hnext : s'.nextJob = s.nextJob) : s.Moves a s' := by
  refine .lost silent ?_ (Nat.le_of_eq hnext.symm) keeps
  rw [tokens, tokens, hhands]
  exact (((htimers.map _).append (hready.map _)).append_right _).subperm

theorem moves_shutDown {caller : Option Nat} (hstep : s.shutDown caller = some s') :
    s.Moves (.shutDown caller) s' := by
  simp only [shutDown] at hstep
  split at hstep
  · cases hstep
    exact moves_forget rfl (.of_jobs rfl) (List.nil_sublist _) (List.Sublist.refl _) rfl rfl
  · split at hstep
    · cases hstep
      exact moves_forget rfl (.of_jobs rfl) (List.nil_sublist _) (List.Sublist.refl _) rfl rfl
    · cases hstep

theorem moves_step (hstep : s.step a = some s') : s.Moves a s' := by
  cases a with
  | submit now delay period =>
      cases hstep
      exact moves_submit delay period
  | cancel job =>
      cases hstep
      exact moves_forget rfl (keeps_cancel job) (List.Sublist.refl _) (List.Sublist.refl _) rfl rfl
  | fire now => exact moves_fire hstep
  | take worker => exact moves_take hstep
  | check worker => exact moves_check hstep
  | start worker => exact moves_start hstep
  | finish worker => exact moves_finish hstep
  | recheck worker => exact moves_recheck hstep
  | renew worker now => exact moves_renew hstep
  | shutDown caller => exact moves_shutDown hstep
  | abort call =>
      simp only [step, abort] at hstep
      split at hstep
      · cases hstep
        exact moves_forget rfl (.of_jobs rfl) (List.Sublist.refl _) (List.nil_sublist _) rfl rfl
      · cases hstep
  | collect call =>
      simp only [step, collect] at hstep
      split at hstep
      · cases hstep
        exact moves_forget rfl (.of_jobs rfl) (List.Sublist.refl _) (List.Sublist.refl _) rfl rfl
      · cases hstep
  | leave call =>
      simp only [step, leave] at hstep
      split at hstep
      · split at hstep
        · cases hstep
          exact moves_forget rfl (.of_jobs rfl) (List.Sublist.refl _) (List.Sublist.refl _) rfl rfl
        · cases hstep
      · cases hstep

/-! ## No job has two tokens -/

/-- Every job has one token at most, and none before its number is given out. -/
structure Single (s : Scheduler) : Prop where
  nodup : (s.tokens.map Token.job).Nodup
  given : ∀ t ∈ s.tokens, t.job < s.nextJob

theorem single_ofWorkers (workers : Nat) : (ofWorkers workers).Single := by
  have hfree (n : Nat) : (List.replicate n Hand.free).filterMap handToken? = [] :=
    List.filterMap_eq_nil_iff.mpr fun h hmem => by rw [List.eq_of_mem_replicate hmem]; rfl
  have htokens : (ofWorkers workers).tokens = [] := by
    rw [tokens, ofWorkers, hfree]
    rfl
  constructor <;> simp [htokens]

theorem Single.step (single : s.Single) (hstep : s.step a = some s') : s'.Single := by
  cases moves_step hstep with
  | passed passes before after next =>
      have hjobs : Perm (s'.tokens.map Token.job) (s.tokens.map Token.job) :=
        (after.map Token.job).trans (before.map Token.job).symm
      refine ⟨hjobs.nodup_iff.mpr single.nodup, fun t ht => ?_⟩
      obtain ⟨u, hu, heq⟩ := List.mem_map.mp (hjobs.mem_iff.mp (List.mem_map_of_mem ht))
      rw [next, ← heq]
      exact single.given u hu
  | lost silent after next =>
      refine ⟨?_, fun t ht => Nat.lt_of_lt_of_le (single.given t (after.subset ht)) next⟩
      obtain ⟨tokens, hperm, hsub⟩ := after
      exact (hperm.map Token.job).nodup_iff.mp ((hsub.map Token.job).nodup single.nodup)
  | issued silent after next =>
      constructor
      · refine (after.map Token.job).nodup_iff.mpr (List.nodup_cons.mpr ⟨fun hmem => ?_, single.nodup⟩)
        obtain ⟨t, ht, heq⟩ := List.mem_map.mp hmem
        have hlt := single.given t ht
        rw [heq] at hlt
        exact Nat.lt_irrefl _ hlt
      · intro t ht
        rw [next]
        cases List.mem_cons.mp (after.mem_iff.mp ht) with
        | inl heq => rw [heq]; exact Nat.lt_succ_self _
        | inr hold => exact Nat.lt_succ_of_lt (single.given t hold)

theorem run_cons {as : List Action} (hrun : run (a :: as) s = some s') :
    ∃ t, s.step a = some t ∧ run as t = some s' :=
  Option.bind_eq_some_iff.mp hrun

theorem run_induction {P : Scheduler → Prop} (hstep : ∀ {s a s'}, P s → s.step a = some s' → P s')
    {as : List Action} (h : P s) (hrun : run as s = some s') : P s' := by
  induction as generalizing s with
  | nil =>
      cases hrun
      exact h
  | cons a as ih =>
      obtain ⟨t, ht, hrest⟩ := run_cons hrun
      exact ih (hstep h ht) hrest

theorem Single.run (single : s.Single) {as : List Action} (hrun : run as s = some s') : s'.Single :=
  run_induction Single.step single hrun

/-- Two workers do not run the same job. -/
theorem Single.running (single : s.Single) {v w : Nat} {due due' : Due} (hv : s.hand v = .running due)
    (hw : s.hand w = .running due') (heq : due.job = due'.job) : v = w := by
  have htokens := (List.pairwise_map.mp single.nodup).sublist (List.sublist_append_right _ _)
  have hhands := List.pairwise_iff_getElem.mp (List.pairwise_filterMap.mp htokens)
  have hget {w : Nat} {due : Due} (hw : s.hand w = .running due) :
      ∃ h : w < s.hands.length, handToken? s.hands[w] = some ⟨.running, due.job⟩ := by
    have hlt := lt_length_hands hw nofun
    refine ⟨hlt, ?_⟩
    rw [hand, List.getD_eq_getElem _ _ hlt] at hw
    rw [hw]
    rfl
  obtain ⟨hltv, hv⟩ := hget hv
  obtain ⟨hltw, hw⟩ := hget hw
  rcases Nat.lt_trichotomy v w with hlt | hvw | hlt
  · exact absurd heq (hhands v w hltv hltw hlt _ hv _ hw)
  · exact hvw
  · exact absurd heq.symm (hhands w v hltw hltv hlt _ hw _ hv)

/-! ## What a job has yet to start -/

/-- The number of tokens of a job at some stages. -/
def tally (s : Scheduler) (p : Stage → Bool) (job : Nat) : Nat :=
  s.tokens.countP fun t => t.job = job && p t.stage

/-- The number of tokens that may still be issued for a job. -/
def credit (s : Scheduler) (job : Nat) : Nat := if s.nextJob ≤ job then 1 else 0

variable {p : Stage → Bool}

theorem Single.tally_le (single : s.Single) : s.tally p job + s.credit job ≤ 1 := by
  have hle : s.tally p job ≤ (s.tokens.map Token.job).count job := by
    rw [List.count_eq_countP, List.countP_map]
    refine List.countP_mono_left fun t _ ht => ?_
    simp only [Bool.and_eq_true, decide_eq_true_eq] at ht
    simp [ht.1]
  by_cases hgiven : s.nextJob ≤ job
  · have hzero : (s.tokens.map Token.job).count job = 0 := by
      refine List.count_eq_zero.mpr fun hmem => ?_
      obtain ⟨t, ht, heq⟩ := List.mem_map.mp hmem
      have hlt := single.given t ht
      omega
    simp only [credit, hgiven, if_true]
    omega
  · have hone := List.nodup_iff_count_le_one.mp single.nodup job
    simp only [credit, hgiven, if_false]
    omega

theorem Passes.count_started {other : Nat} {old new : Stage} (passes : s.Passes other a old new)
    (hne : other ≠ job) : (s.started a).count job = 0 := by
  cases passes with
  | start worker starts => rw [starts]; simp [hne]
  | _ => rfl

theorem tally_of_perm {t : Token} {ts : List Token} (h : Perm s.tokens (t :: ts)) :
    s.tally p job =
      (ts.countP fun t => t.job = job && p t.stage) + if t.job = job && p t.stage then 1 else 0 := by
  rw [tally, h.countP_eq, List.countP_cons]

/-- What a job may still start only gets less, by one with each start. -/
theorem tally_step (hpass : ∀ old new, s.Passes job a old new →
      (p new).toNat + (s.started a).count job ≤ (p old).toNat)
    (hstep : s.step a = some s') :
    s'.tally p job + s'.credit job + (s.started a).count job ≤ s.tally p job + s.credit job := by
  cases moves_step hstep with
  | @passed other old new rest passes before after next =>
      rw [tally_of_perm before, tally_of_perm after, credit, credit, next]
      by_cases hother : other = job
      · subst hother
        have hle := hpass old new passes
        cases hold : p old <;> cases hnew : p new <;> simp [hold, hnew] at hle ⊢ <;> omega
      · simp [hother, passes.count_started hother]
  | lost silent after next =>
      have hle : s'.tally p job ≤ s.tally p job := after.countP_le _
      simp only [silent, credit, List.count_nil]
      split <;> split <;> omega
  | issued silent after next =>
      rw [tally_of_perm after, credit, credit, next, silent, List.count_nil]
      change s.tally p job + _ + _ + 0 ≤ _
      by_cases hnew : s.nextJob = job
      · subst hnew
        have hlt : ¬ s.nextJob + 1 ≤ s.nextJob := Nat.not_succ_le_self _
        cases p .scheduled <;> simp [hlt]
      · have hiff : s.nextJob + 1 ≤ job ↔ s.nextJob ≤ job := by omega
        simp [hnew, hiff]

/-! ## Starts along a run -/

theorem Moves.keeps (h : s.Moves a s') : s.Keeps s' := by
  cases h <;> assumption

theorem keeps_run {as : List Action} (hrun : Scheduler.run as s = some s') : s.Keeps s' := by
  refine run_induction (P := s.Keeps) (fun {t a t'} keeps hstep => ?_) (.of_jobs rfl) hrun
  have last := (moves_step hstep).keeps
  constructor
  · exact fun job period h => last.period job period (keeps.period job period h)
  · exact fun job h => last.cancelled job (keeps.cancelled job h)

/-- A token of a job without a period that is here will be started at most once. -/
def Stage.isAhead : Stage → Bool
  | .running => false
  | .ran => false
  | _ => true

theorem Passes.isAhead {old new : Stage} (passes : s.Passes job a old new) (hperiod : s.period? job = none) :
    new.isAhead.toNat + (s.started a).count job ≤ old.isAhead.toNat := by
  cases passes with
  | start worker starts => simp [starts, Stage.isAhead]
  | recheck worker periodic => exact absurd hperiod periodic
  | _ => exact Nat.le_refl _

theorem Passes.cleared {old new : Stage} (passes : s.Passes job a old new)
    (hcancelled : s.isCancelled job = true) :
    (decide (new = .cleared)).toNat + (s.started a).count job ≤ (decide (old = .cleared)).toNat := by
  cases passes with
  | start worker starts => simp [starts]
  | check worker kept => simp [hcancelled] at kept
  | _ => exact Nat.le_refl _

theorem starts_of_step {as : List Action} (hstep : s.step a = some s') :
    starts (a :: as) s = s.started a ++ starts as s' := by
  rw [starts, hstep]

theorem starts_le_of_period {as : List Action} (hrun : run as s = some s') (hperiod : s'.period? job = none) :
    (starts as s).count job ≤ s.tally Stage.isAhead job + s.credit job := by
  induction as generalizing s with
  | nil => exact Nat.zero_le _
  | cons a as ih =>
      obtain ⟨t, hstep, hrest⟩ := run_cons hrun
      have hnone : s.period? job = none := by
        refine Option.eq_none_iff_forall_ne_some.mpr fun period h => ?_
        rw [(keeps_run hrun).period job period h] at hperiod
        cases hperiod
      have hle := tally_step (fun _ _ passes => passes.isAhead hnone) hstep
      have hrest := ih hrest
      rw [starts_of_step hstep, List.count_append]
      omega

theorem starts_le_of_isCancelled {as : List Action} (hcancelled : s.isCancelled job = true) :
    (starts as s).count job ≤ s.tally (· = .cleared) job + s.credit job := by
  induction as generalizing s with
  | nil => exact Nat.zero_le _
  | cons a as ih =>
      cases hstep : s.step a with
      | none =>
          rw [starts, hstep]
          exact Nat.zero_le _
      | some t =>
          have hle := tally_step (fun _ _ passes => passes.cleared hcancelled) hstep
          have hrest := ih ((moves_step hstep).keeps.cancelled job hcancelled)
          rw [starts_of_step hstep, List.count_append]
          omega

end Scheduler

end Behavior
