/-
The prefetching at the start of the server (`src/server/udp.rs`: `run_server`).

One job makes a task for every domain and puts it into a set of tasks that make
progress only while the job waits for the next of them to end. From 100 tasks on the
loop waits; each task needs one of 50 permits. A task is dropped only once it has
ended, so the wait cannot block: the permits are with tasks of the set. Domains are
known by their place in the list, the list may name one twice.

Whatever the order in which tasks are polled and end, the job goes on until every
domain has been prefetched once, and it takes three steps for each
(`prefetch_completes`). Only a panic of a task ends it before.
-/

import FastDns.Lib.Admission
import FastDns.Lib.Trace

namespace FastDns.Server

open FastDns.Lib

/-- `CONCURRENT_PREFETCH` -/
def concurrentPrefetch : Nat := 50

/-- Where the job is. -/
inductive PrefetchPhase where
  /-- In the loop over the domains. -/
  | filling
  /-- In that loop, in `tasks.next().await`. -/
  | full
  /-- In the loop that waits for the remaining tasks. -/
  | draining
  | complete
  | panicked
deriving DecidableEq, Repr

/-- The job that `run_server` spawns. -/
structure PrefetchJob where
  phase : PrefetchPhase
  /-- The domains that have no task yet. -/
  domains : List Nat
  /-- The tasks that were never polled. -/
  queued : List Nat
  /-- The other tasks. -/
  semaphore : Admission Nat

namespace PrefetchJob

/-- `tasks.len()` -/
def tasksLen (j : PrefetchJob) : Nat := j.queued.length + j.semaphore.active.length

/-- What may happen next. -/
inductive Event where
  /-- `tasks.push` -/
  | push
  /-- The loop over the domains is at its end. -/
  | drain
  /-- A task is polled for the first time: it asks for its permit. -/
  | poll (i : Nat)
  /-- Both look-ups of a task have ended, or timed out. -/
  | finish (i : Nat)
  | panic

/-- The job is in `tasks.next().await`: only then tasks run. -/
def awaits (j : PrefetchJob) : Prop := j.phase = .full ∨ j.phase = .draining

instance (j : PrefetchJob) : Decidable j.awaits := inferInstanceAs (Decidable (_ ∨ _))

/-- The loop `while (tasks.next().await).is_some() {}`, when it looks for a task. -/
def drained (j : PrefetchJob) : PrefetchJob :=
  { j with phase := if j.tasksLen = 0 then .complete else .draining }

def step (j : PrefetchJob) : Event → Option PrefetchJob
  | .push =>
      match j.phase, j.domains with
      | .filling, domain :: rest =>
          let j := { j with domains := rest, queued := j.queued ++ [domain] }
          some (if j.tasksLen ≥ concurrentPrefetch * 2 then { j with phase := .full } else j)
      | _, _ => none
  | .drain => if j.phase = .filling ∧ j.domains = [] then some j.drained else none
  | .poll i =>
      if j.awaits ∧ i ∈ j.queued then
        some { j with queued := j.queued.erase i, semaphore := j.semaphore.acquire i }
      else none
  | .finish i =>
      if j.awaits ∧ i ∈ j.semaphore.running then
        let j := { j with semaphore := j.semaphore.release i }
        some (if j.phase = .full then { j with phase := .filling } else j.drained)
      else none
  | .panic =>
      if j.awaits ∧ j.semaphore.running ≠ [] then some { j with phase := .panicked } else none

/-- The job before it runs. -/
def start (domains : Nat) : PrefetchJob :=
  ⟨.filling, List.range domains, [], .new concurrentPrefetch⟩

variable {n : Nat} {j j' : PrefetchJob} {e : Event} {i : Nat}

@[simp] theorem drained_domains (j : PrefetchJob) : j.drained.domains = j.domains := rfl
@[simp] theorem drained_queued (j : PrefetchJob) : j.drained.queued = j.queued := rfl
@[simp] theorem drained_semaphore (j : PrefetchJob) : j.drained.semaphore = j.semaphore := rfl
@[simp] theorem drained_tasksLen (j : PrefetchJob) : j.drained.tasksLen = j.tasksLen := rfl

/-- Everything a step can do. -/
inductive Steps (j : PrefetchJob) : Event → PrefetchJob → Prop where
  | push {domain : Nat} {rest : List Nat} : j.phase = .filling → j.domains = domain :: rest →
      j.tasksLen + 1 < 100 →
      Steps j .push { j with domains := rest, queued := j.queued ++ [domain] }
  | fill {domain : Nat} {rest : List Nat} : j.phase = .filling → j.domains = domain :: rest →
      100 ≤ j.tasksLen + 1 →
      Steps j .push { j with phase := .full, domains := rest, queued := j.queued ++ [domain] }
  | drain : j.phase = .filling → j.domains = [] → Steps j .drain j.drained
  | poll {i : Nat} : j.awaits → i ∈ j.queued →
      Steps j (.poll i)
        { j with queued := j.queued.erase i, semaphore := j.semaphore.acquire i }
  | goOn {i : Nat} : j.phase = .full → i ∈ j.semaphore.running →
      Steps j (.finish i) { j with phase := .filling, semaphore := j.semaphore.release i }
  | wait {i : Nat} : j.phase = .draining → i ∈ j.semaphore.running →
      Steps j (.finish i) { j with semaphore := j.semaphore.release i }.drained
  | panic : j.awaits → j.semaphore.running ≠ [] → Steps j .panic { j with phase := .panicked }

/-- The inversion of `step`. -/
theorem steps_of_step (h : j.step e = some j') : Steps j e j' := by
  cases e with
  | push =>
      simp only [step] at h
      split at h
      · rename_i domain rest hphase hdomains
        have hlen : { j with domains := rest, queued := j.queued ++ [domain] }.tasksLen =
            j.tasksLen + 1 := by
          simp only [tasksLen, List.length_append, List.length_singleton]
          omega
        cases h
        rw [hlen]
        split
        · rename_i hfull
          exact .fill hphase hdomains hfull
        · rename_i hroom
          exact .push hphase hdomains (Nat.lt_of_not_le hroom)
      · cases h
  | drain =>
      simp only [step] at h
      split at h
      · rename_i hend
        cases h
        exact .drain hend.1 hend.2
      · cases h
  | poll i =>
      simp only [step] at h
      split at h
      · rename_i hpoll
        cases h
        exact .poll hpoll.1 hpoll.2
      · cases h
  | finish i =>
      simp only [step] at h
      split at h
      · rename_i hends
        cases h
        obtain ⟨hfull | hdraining, hi⟩ := hends
        · rw [if_pos hfull]
          exact .goOn hfull hi
        · rw [if_neg (by rw [hdraining]; decide)]
          exact .wait hdraining hi
      · cases h
  | panic =>
      simp only [step] at h
      split at h
      · rename_i hends
        cases h
        exact .panic hends.1 hends.2
      · cases h

/-! ### Bounds -/

/-- The numbers of tasks in each phase. -/
structure Bounded (j : PrefetchJob) : Prop where
  permits : j.semaphore.Fits concurrentPrefetch
  filling : j.phase = .filling → j.tasksLen < 100
  full : j.phase = .full → j.tasksLen = 100
  draining : j.phase = .draining → j.domains = [] ∧ 0 < j.tasksLen
  complete : j.phase = .complete → j.domains = [] ∧ j.tasksLen = 0
  tasks : j.tasksLen ≤ 100

/-- The job has no task yet. -/
theorem bounded_start (n : Nat) : Bounded (start n) :=
  ⟨Admission.fits_new _, fun _ => Nat.zero_lt_succ _, nofun, nofun, nofun, Nat.zero_le _⟩

/-- Where the loop waits for the remaining tasks, or has ended. -/
theorem bounded_drained (hpermits : j.semaphore.Fits concurrentPrefetch) (hdomains : j.domains = [])
    (htasks : j.tasksLen ≤ 100) : Bounded j.drained := by
  by_cases hzero : j.tasksLen = 0
  · have hphase : j.drained.phase = .complete := if_pos hzero
    exact ⟨hpermits, by simp [hphase], by simp [hphase], by simp [hphase],
      fun _ => ⟨hdomains, hzero⟩, htasks⟩
  · have hphase : j.drained.phase = .draining := if_neg hzero
    exact ⟨hpermits, by simp [hphase], by simp [hphase],
      fun _ => ⟨hdomains, Nat.pos_of_ne_zero hzero⟩, by simp [hphase], htasks⟩

/-- A task that is pushed is one more. -/
theorem tasksLen_push (j : PrefetchJob) (domain : Nat) (phase : PrefetchPhase)
    (rest : List Nat) :
    tasksLen { j with phase, domains := rest, queued := j.queued ++ [domain] } =
      j.tasksLen + 1 := by
  simp only [tasksLen, List.length_append, List.length_singleton]
  omega

/-- The first poll leaves the number of tasks as it is. -/
theorem tasksLen_poll (hi : i ∈ j.queued) :
    tasksLen { j with queued := j.queued.erase i, semaphore := j.semaphore.acquire i } =
      j.tasksLen := by
  have hpos := List.length_pos_of_mem hi
  have hactive := (Admission.active_acquire j.semaphore i).length_eq
  simp only [tasksLen, List.length_erase_of_mem hi, hactive, List.length_cons]
  omega

/-- A task that ends is one less. -/
theorem tasksLen_finish (hi : i ∈ j.semaphore.running) (phase : PrefetchPhase) :
    tasksLen { j with phase, semaphore := j.semaphore.release i } + 1 = j.tasksLen := by
  have hactive := (Admission.active_release hi).length_eq
  rw [List.length_cons] at hactive
  simp only [tasksLen]
  omega

/-- **The step lemma** for the bounds and the phases. -/
theorem bounded_step (hj : Bounded j) (h : j.step e = some j') : Bounded j' := by
  cases steps_of_step h with
  | @push domain rest hphase hdomains hroom =>
      have hlen := tasksLen_push j domain j.phase rest
      exact ⟨hj.permits, fun _ => by omega, by simp [hphase], by simp [hphase], by simp [hphase],
        by omega⟩
  | @fill domain rest hphase hdomains hfull =>
      have hlen := tasksLen_push j domain .full rest
      have hbefore := hj.filling hphase
      exact ⟨hj.permits, nofun, fun _ => by omega, nofun, nofun, by omega⟩
  | drain hphase hdomains =>
      exact bounded_drained hj.permits hdomains hj.tasks
  | @poll i hawaits hi =>
      have hlen := tasksLen_poll hi
      refine ⟨hj.permits.acquire i, ?_, ?_, ?_, ?_, ?_⟩
      · rw [hlen]
        exact hj.filling
      · rw [hlen]
        exact hj.full
      · rw [hlen]
        exact hj.draining
      · rw [hlen]
        exact hj.complete
      · rw [hlen]
        exact hj.tasks
  | @goOn i hphase hi =>
      have hlen := tasksLen_finish hi .filling
      have hbefore := hj.full hphase
      exact ⟨hj.permits.release hi, fun _ => by omega, nofun, nofun, nofun, by omega⟩
  | @wait i hphase hi =>
      have hlen := tasksLen_finish hi j.phase
      have hbefore := hj.tasks
      exact bounded_drained (hj.permits.release hi) (hj.draining hphase).1 (by omega)
  | panic hawaits hrunning =>
      exact ⟨hj.permits, nofun, nofun, nofun, nofun, hj.tasks⟩

/-! ### Domains -/

/-- Every domain has one place. -/
def Accounted (n : Nat) (j : PrefetchJob) : Prop :=
  (j.domains ++ j.queued ++ j.semaphore.active ++ j.semaphore.finished).Perm (List.range n)

/-- All domains are still in the list. -/
theorem accounted_start (n : Nat) : Accounted n (start n) := by
  simp [Accounted, start, Admission.new, Admission.active]

/-- A task has ended. -/
theorem accounted_finish (hj : Accounted n j) (hi : i ∈ j.semaphore.running)
    (phase : PrefetchPhase) :
    Accounted n { j with phase, semaphore := j.semaphore.release i } := by
  have hactive := Admission.active_release hi
  rw [Accounted, List.perm_iff_count] at hj ⊢
  intro k
  have hk := hj k
  have hmoved := hactive.count_eq k
  simp only [Admission.finished_release, List.count_append, List.count_cons,
    List.count_nil] at hk hmoved ⊢
  omega

/-- **The step lemma** for the domains: none is lost, none comes twice. -/
theorem accounted_step (hj : Accounted n j) (h : j.step e = some j') : Accounted n j' := by
  cases steps_of_step h with
  | @push domain rest _ hdomains _ | @fill domain rest _ hdomains _ =>
      rw [Accounted, hdomains, List.perm_iff_count] at hj
      rw [Accounted, List.perm_iff_count]
      intro k
      have hk := hj k
      simp only [List.count_append, List.count_cons, List.count_nil] at hk ⊢
      omega
  | drain _ _ => exact hj
  | @poll i _ hi =>
      have hactive := Admission.active_acquire j.semaphore i
      have herase := List.perm_cons_erase hi
      rw [Accounted, List.perm_iff_count] at hj ⊢
      intro k
      have hk := hj k
      have hmoved := hactive.count_eq k
      have hpolled := herase.count_eq k
      simp only [Admission.finished_acquire, List.count_append, List.count_cons]
        at hk hmoved hpolled ⊢
      omega
  | goOn _ hi => exact accounted_finish hj hi .filling
  | wait _ hi => exact accounted_finish hj hi j.phase
  | panic _ _ => exact hj

/-! ### Progress -/

/-- How many steps the job has left at most. -/
def remaining (j : PrefetchJob) : Nat :=
  3 * j.domains.length + 2 * j.queued.length + j.semaphore.active.length +
    match j.phase with
    | .filling => 2
    | .full => 2
    | .draining => 1
    | .complete => 0
    | .panicked => 0

theorem remaining_drained_le (j : PrefetchJob) : j.drained.remaining ≤
    3 * j.domains.length + 2 * j.queued.length + j.semaphore.active.length + 1 := by
  by_cases hzero : j.tasksLen = 0 <;> simp [drained, remaining, hzero]

/-- Each step uses up one of those that are left. -/
theorem remaining_step (h : j.step e = some j') : j'.remaining + 1 ≤ j.remaining := by
  cases steps_of_step h with
  | push hphase hdomains _ =>
      simp only [remaining, hdomains, hphase, List.length_cons, List.length_append,
        List.length_nil]
      omega
  | fill hphase hdomains _ =>
      simp only [remaining, hdomains, hphase, List.length_cons, List.length_append,
        List.length_nil]
      omega
  | drain hphase _ =>
      have hless := remaining_drained_le j
      simp only [remaining, hphase] at hless ⊢
      omega
  | @poll i _ hi =>
      have hpos := List.length_pos_of_mem hi
      have hactive := (Admission.active_acquire j.semaphore i).length_eq
      rw [List.length_cons] at hactive
      simp only [remaining, List.length_erase_of_mem hi, hactive]
      omega
  | @goOn i hphase hi =>
      have hactive := (Admission.active_release hi).length_eq
      rw [List.length_cons] at hactive
      simp only [remaining, hphase]
      omega
  | @wait i hphase hi =>
      have hactive := (Admission.active_release hi).length_eq
      have hless := remaining_drained_le { j with semaphore := j.semaphore.release i }
      rw [List.length_cons] at hactive
      simp only [remaining, hphase] at hless ⊢
      omega
  | panic hawaits _ =>
      simp only [remaining]
      rcases hawaits with hphase | hphase <;> rw [hphase] <;> dsimp only <;> omega

/-- While the job waits, a task can be polled, or one that runs will end. -/
theorem Bounded.goesOn (hj : Bounded j) (hcomplete : j.phase ≠ .complete)
    (hpanicked : j.phase ≠ .panicked) :
    (j.step .push).isSome ∨ (j.step .drain).isSome ∨
      (∃ i, (j.step (.poll i)).isSome) ∨ ∃ i, (j.step (.finish i)).isSome := by
  by_cases hawaits : j.awaits
  · right
    right
    have htasks : 0 < j.tasksLen := by
      rcases hawaits with hfull | hdraining
      · rw [hj.full hfull]
        decide
      · exact (hj.draining hdraining).2
    by_cases hqueued : j.queued = []
    · right
      have hrunning : j.semaphore.running ≠ [] := by
        -- Who waits for a permit waits for a task that runs.
        intro hidle
        have hfree := hj.permits.free_of_idle hidle
        have hwaiting : j.semaphore.waiting = [] := by
          by_contra hne
          rw [hj.permits.busy hne] at hfree
          exact absurd hfree (by decide)
        simp [tasksLen, hqueued, Admission.active, hidle, hwaiting] at htasks
      obtain ⟨i, hi⟩ := List.exists_mem_of_ne_nil _ hrunning
      exact ⟨i, by simp [step, hawaits, hi]⟩
    · left
      obtain ⟨i, hi⟩ := List.exists_mem_of_ne_nil _ hqueued
      exact ⟨i, by simp [step, hawaits, hi]⟩
  · have hphase : j.phase = .filling := by
      simp only [awaits, not_or] at hawaits
      cases hphase : j.phase with
      | filling => rfl
      | full => exact absurd hphase hawaits.1
      | draining => exact absurd hphase hawaits.2
      | complete => exact absurd hphase hcomplete
      | panicked => exact absurd hphase hpanicked
    cases hdomains : j.domains with
    | nil => exact .inr (.inl (by simp [step, hphase, hdomains]))
    | cons domain rest => exact .inl (by simp [step, hphase, hdomains])

/-- What is known of the job after any of its runs. -/
structure Prefetches (n : Nat) (events : List Event) (j : PrefetchJob) : Prop where
  running : j.semaphore.running.length ≤ 50
  tasks : j.tasksLen ≤ 100
  once : (j.domains ++ j.queued ++ j.semaphore.active ++ j.semaphore.finished).Perm (List.range n)
  steps : events.length ≤ 3 * n + 2
  /-- It never waits for nothing. -/
  goesOn : j.phase ≠ .complete → j.phase ≠ .panicked →
    (j.step .push).isSome ∨ (j.step .drain).isSome ∨
      (∃ i, (j.step (.poll i)).isSome) ∨ ∃ i, (j.step (.finish i)).isSome
  complete : j.phase = .complete → j.semaphore.finished.Perm (List.range n)

/-- **The job prefetches every domain once**, in every run. -/
theorem prefetch_completes (n : Nat) (events : List Event) (j : PrefetchJob)
    (h : Trace step (start n) events j) : Prefetches n events j := by
  have hbounded : Bounded j := h.invariant (bounded_start n) bounded_step
  have haccounted : Accounted n j := h.invariant (accounted_start n) accounted_step
  refine ⟨hbounded.permits.running_le, hbounded.tasks, haccounted, ?_, hbounded.goesOn, ?_⟩
  · have hcount : events.countP (fun _ => true) + j.remaining ≤ (start n).remaining :=
      h.countP_add_le fun hstep => remaining_step hstep
    have hstart : (start n).remaining = 3 * n + 2 := by
      simp [remaining, start, Admission.new, Admission.active]
    rw [List.countP_true, hstart] at hcount
    omega
  · intro hcomplete
    obtain ⟨hdomains, hnone⟩ := hbounded.complete hcomplete
    rw [tasksLen, Nat.add_eq_zero_iff, List.length_eq_zero_iff, List.length_eq_zero_iff] at hnone
    rw [Accounted, hdomains, hnone.1, hnone.2] at haccounted
    simpa using haccounted

/-- Three domains: the second one is looked up first, and the first one ends last. -/
def threeDomains : List Event :=
  [.push, .push, .push, .drain, .poll 1, .poll 0, .finish 1, .poll 2, .finish 2, .finish 0]

/-- The job at the end of that. -/
def threeDomainsDone : PrefetchJob :=
  ⟨.complete, [], [], ⟨50, [], [], [1, 0, 2], [], [1, 2, 0]⟩⟩

theorem trace_threeDomains : Trace step (start 3) threeDomains threeDomainsDone := by
  have hfirst : Trace step (start 3) [.push] { start 3 with domains := [1, 2], queued := [0] } :=
    .single rfl
  have hsecond := Trace.step (e := .push) hfirst rfl
  have hthird := Trace.step (e := .push) hsecond rfl
  have hdrain := Trace.step (e := .drain) hthird rfl
  have hpoll := Trace.step (e := .poll 0) (Trace.step (e := .poll 1) hdrain rfl) rfl
  have hfinish := Trace.step (e := .finish 1) hpoll rfl
  have hlast := Trace.step (e := .finish 2) (Trace.step (e := .poll 2) hfinish rfl) rfl
  exact Trace.step (e := .finish 0) hlast rfl

theorem prefetch_completes_threeDomains : Prefetches 3 threeDomains threeDomainsDone :=
  prefetch_completes 3 threeDomains threeDomainsDone trace_threeDomains

end PrefetchJob

end FastDns.Server
