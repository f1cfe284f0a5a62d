/-
How a call of `query_servers_concurrent` ends (`src/resolver/recursive.rs`).

Apart from the bytes that arrive, a task has a fixed number of steps, and `select_all`
looks at each task once. So a call has come to its end after finitely many steps of
its own: it returns, or no task is left that has a message or can go on. The tasks
that cannot go on loop in the decoder, or wait for the lock on the truncation cache;
that lock is then with a task that loops, or with another call. The call gives up only
when every task has ended without a message (`exchange_completes`).
-/

import FastDns.Lib.Trace
import FastDns.Resolver.Exchange
import Mathlib.Algebra.BigOperators.Group.List.Basic

namespace FastDns.Resolver

open FastDns.Lib FastDns.Dns FastDns.Dnssec

/-! ### Steps of a task -/

/-- How many steps of its own a task has left at most. With the lock there is one
more, for the measurement of the round-trip time. -/
def Phase.remaining : Phase → Nat
  | .spawned => 4
  | .waiting => 3
  | .truncated _ => 3
  | .connecting none => 3
  | .connecting (some _) => 2
  | .exchanging none _ => 2
  | .exchanging (some _) _ => 1
  | .measuring _ => 1
  | .finished _ => 0
  | .hung _ => 0

/-- Not the arrival of bytes. -/
def TaskEvent.own : TaskEvent → Bool
  | .datagram _ => false
  | .arrive _ => false
  | _ => true

/-- The next step of the task needs the lock on the truncation cache. -/
inductive Task.Waits (t : Task) : Prop where
  | spawned : t.phase = .spawned → t.Waits
  | truncated {m : Message} : t.phase = .truncated m → t.Waits

namespace Task

variable {expectedId : UInt16} {t t' : Task} {net net' : Net}

@[simp] theorem remaining_ending (decoded : DnsResult Message) : (ending decoded).remaining = 0 := by
  cases decoded <;> rfl

/-- At most one event is left behind a read: the measurement of the round-trip time. -/
theorem remaining_endingDirect {decoded : DnsResult Message} {phase : Phase}
    (h : endingDirect decoded net = (phase, net')) : phase.remaining ≤ 1 := by
  cases decoded <;> cases h <;> simp [Phase.remaining]

/-- A connection uses up the event that opens it. -/
theorem remaining_exchanging (fallback : Option Message) (stream : TcpStream) :
    (Phase.exchanging fallback stream).remaining + 1 = (Phase.connecting fallback).remaining := by
  cases fallback <;> rfl

theorem remaining_exchanging_pos (fallback : Option Message) (stream : TcpStream) :
    1 ≤ (Phase.exchanging fallback stream).remaining := by
  cases fallback <;> simp [Phase.remaining]

/-- A datagram ends the wait, or leaves the task as it is. -/
theorem remaining_receive (hphase : t.phase = .waiting) (d : Datagram) :
    (t.receive expectedId d).phase.remaining ≤ 3 := by
  unfold receive
  dsimp only
  split
  · split
    · split <;> simp [Phase.remaining]
    · simp
  · simp [hphase, Phase.remaining]

/-- Every step of its own brings a task closer to its end. -/
theorem remaining_step {e : TaskEvent} (h : t.step expectedId net e = some (t', net')) :
    t'.phase.remaining + (if e.own then 1 else 0) ≤ t.phase.remaining := by
  cases steps_of_step h with
  | direct hphase | send hphase | unsent hphase | receiveFails hphase | timeout hphase
  | note hphase | measured hphase =>
      rw [hphase]
      simp [Phase.remaining, TaskEvent.own]
  | @datagram d hphase =>
      have hless : (t.receive expectedId d).phase.remaining ≤ 3 := remaining_receive hphase d
      simpa [hphase, Phase.remaining, TaskEvent.own] using hless
  | @pooled fallback stream _ _ hphase =>
      rw [hphase]
      exact (remaining_exchanging fallback stream).le
  | @connected fallback _ hphase =>
      rw [hphase]
      exact (remaining_exchanging fallback ⟨⟨t.server, dnsPort⟩, []⟩).le
  | @unconnected fallback _ hphase =>
      rw [hphase, ← remaining_exchanging fallback ⟨⟨t.server, dnsPort⟩, []⟩]
      simp [Phase.remaining, TaskEvent.own]
  | @arrive fallback _ _ hphase =>
      rw [hphase]
      cases fallback <;> simp [Phase.remaining, TaskEvent.own]
  | @refused fallback stream _ hphase | @tcpFails fallback stream hphase =>
      rw [hphase]
      simpa [Phase.remaining, TaskEvent.own] using remaining_exchanging_pos fallback stream
  | read hphase =>
      rw [hphase]
      dsimp only
      rw [remaining_ending]
      simp [Phase.remaining, TaskEvent.own]
  | readDirect hphase _ hending =>
      rw [hphase]
      simpa [Phase.remaining, TaskEvent.own] using remaining_endingDirect hending

/-- A task that has neither ended nor hung, and does not wait for the lock, has a step
of its own. -/
theorem exists_step (expectedId : UInt16) (t : Task) (net : Net) :
    (∃ result, t.phase = .finished result) ∨ (∃ locked, t.phase = .hung locked) ∨
      (t.Waits ∧ net.lock ≠ .nobody) ∨
      ∃ e : TaskEvent, e.own = true ∧ (t.step expectedId net e).isSome := by
  cases hphase : t.phase with
  | spawned =>
      by_cases hlock : net.lock = .nobody
      · refine .inr (.inr (.inr ⟨.start false, rfl, ?_⟩))
        have hfree : ¬ net.lock ≠ .nobody := not_not.mpr hlock
        simp only [step, hphase, if_neg hfree]
        split <;> simp
      · exact .inr (.inr (.inl ⟨.spawned hphase, hlock⟩))
  | waiting => exact .inr (.inr (.inr ⟨.timeout, rfl, by simp [step, hphase]⟩))
  | truncated m =>
      by_cases hlock : net.lock = .nobody
      · exact .inr (.inr (.inr ⟨.note 0, rfl, by simp [step, hphase, hlock]⟩))
      · exact .inr (.inr (.inl ⟨.truncated hphase, hlock⟩))
  | connecting fallback =>
      refine .inr (.inr (.inr ⟨.connect 0 false, rfl, ?_⟩))
      simp only [step, hphase]
      split <;> simp
  | exchanging fallback stream => exact .inr (.inr (.inr ⟨.tcpFails, rfl, by simp [step, hphase]⟩))
  | measuring m => exact .inr (.inr (.inr ⟨.measured, rfl, by simp [step, hphase]⟩))
  | finished result => exact .inl ⟨result, rfl⟩
  | hung locked => exact .inr (.inl ⟨locked, rfl⟩)

/-! ### The lock -/

@[simp] theorem holds_exchanging (fallback : Option Message) (stream : TcpStream) :
    (Phase.exchanging fallback stream).holds = (Phase.connecting fallback).holds := by
  cases fallback <;> rfl

/-- A task that falls back on nothing holds the lock, and has given it up where it
ends. -/
theorem lock_unlock (net : Net) (fallback : Option Message) :
    (net.unlock fallback).lock =
      if (Phase.connecting fallback).holds then .nobody else net.lock := by
  cases fallback <;> rfl

/-- With the lock held, only a message or an endless loop keeps it. -/
theorem lock_endingDirect {decoded : DnsResult Message} {phase : Phase}
    (h : endingDirect decoded net = (phase, net')) : phase.holds = true ∨ net'.lock = .nobody := by
  cases decoded with
  | ok m =>
      cases h
      exact .inl rfl
  | err e =>
      cases h
      exact .inr rfl
  | panic =>
      cases h
      exact .inr rfl
  | diverge =>
      cases h
      exact .inl rfl

/-- Where a task ends without a message of its own, the lock stays with the call only if
the task did not hold it. -/
theorem holds_of_unlock {fallback : Option Message} (hlock : (net.unlock fallback).lock = .call) :
    net.lock = .call ∧ (Phase.connecting fallback).holds = false := by
  rw [lock_unlock] at hlock
  split at hlock
  · cases hlock
  · rename_i hholds
    exact ⟨hlock, by simpa using hholds⟩

/-- **A step and the lock**: if the lock is with the call behind the step, the task
holds it, or it was with the call already and the task did not hold it. -/
theorem holds_step {e : TaskEvent} (h : t.step expectedId net e = some (t', net'))
    (hlock : net'.lock = .call) :
    t'.phase.holds = true ∨ (net.lock = .call ∧ t.phase.holds = false) := by
  cases steps_of_step h with
  | direct => exact .inl rfl
  | send hphase | unsent hphase | datagram hphase | receiveFails hphase | timeout hphase
  | note hphase | read hphase => exact .inr ⟨hlock, by rw [hphase]; rfl⟩
  | @pooled fallback stream _ _ hphase =>
      rw [hphase]
      cases fallback with
      | none => exact .inl rfl
      | some m => exact .inr ⟨hlock, rfl⟩
  | @connected fallback _ hphase =>
      rw [hphase]
      cases fallback with
      | none => exact .inl rfl
      | some m => exact .inr ⟨hlock, rfl⟩
  | unconnected hphase =>
      have hfree := holds_of_unlock hlock
      rw [hphase]
      exact .inr hfree
  | @arrive fallback _ _ hphase =>
      rw [hphase]
      cases fallback with
      | none => exact .inl rfl
      | some m => exact .inr ⟨hlock, rfl⟩
  | refused hphase | tcpFails hphase =>
      rw [hphase, holds_exchanging]
      exact .inr (holds_of_unlock hlock)
  | readDirect hphase _ hending =>
      refine (lock_endingDirect hending).imp_right fun hnobody => ?_
      rw [hnobody] at hlock
      cases hlock
  | measured => cases hlock

end Task

/-! ### Steps of the call -/

/-- Not the arrival of bytes, and not a step of another call or of a clean-up. -/
def ExchangeEvent.own : ExchangeEvent → Bool
  | .task _ e => e.own
  | .select _ => true
  | _ => false

namespace Exchange

variable {expectedId : UInt16} {servers : List IpAddr} {events : List ExchangeEvent}
  {x x' : Exchange} {e : ExchangeEvent} {i : Nat} {t : Task}

/-- How many steps of its own a call has left at most. -/
def remaining (x : Exchange) : Nat :=
  (x.tasks.map fun t => t.phase.remaining).sum + x.pending.length

/-- A sum in which one summand is replaced. -/
theorem sum_map_set {α : Type} (f : α → Nat) {l : List α} {a : α} (h : l[i]? = some a) (b : α) :
    ((l.set i b).map f).sum + f a = (l.map f).sum + f b := by
  induction l generalizing i with
  | nil => cases h
  | cons c l ih =>
      cases i with
      | zero =>
          cases h
          simp only [List.set_cons_zero, List.map_cons, List.sum_cons]
          omega
      | succ i =>
          have hrest := ih (i := i) (by simpa using h)
          simp only [List.set_cons_succ, List.map_cons, List.sum_cons]
          omega

/-- A step of a task is one of the call. -/
theorem step_task_eq_some {e : TaskEvent} :
    x.step expectedId (.task i e) = some x' ↔
      ∃ t t' net', x.tasks[i]? = some t ∧ t.step expectedId x.net e = some (t', net') ∧
        x' = { x with tasks := x.tasks.set i t', net := net' } := by
  simp only [step, Option.bind_eq_bind, Option.bind_eq_some_iff, Prod.exists]
  constructor
  · rintro ⟨t, ht, t', net', hstep, hx⟩
    cases hx
    exact ⟨t, t', net', ht, hstep, rfl⟩
  · rintro ⟨t, t', net', ht, hstep, rfl⟩
    exact ⟨t, ht, t', net', hstep, rfl⟩

/-- `select_ok` takes a task that has ended, as long as it has not returned. -/
theorem step_select_eq_some :
    x.step expectedId (.select i) = some x' ↔
      i ∈ x.pending ∧ x.returned = none ∧
        ∃ t result, x.tasks[i]? = some t ∧ t.phase = .finished result ∧ x' = x.select i result := by
  simp only [step]
  constructor
  · intro h
    split at h
    · rename_i hopen
      split at h
      · rename_i htask
        cases h
        exact ⟨hopen.1, hopen.2, _, _, htask, rfl, rfl⟩
      · cases h
    · cases h
  · rintro ⟨hpending, hreturned, ⟨server, phase, heard, framed⟩, result, htask, hphase, rfl⟩
    cases hphase
    rw [if_pos ⟨hpending, hreturned⟩, htask]

@[simp] theorem tasks_select (x : Exchange) (i : Nat) (result : Option Message) :
    (x.select i result).tasks = x.tasks := by
  cases result <;> rfl

@[simp] theorem pending_select (x : Exchange) (i : Nat) (result : Option Message) :
    (x.select i result).pending = x.pending.erase i := by
  cases result <;> rfl

/-- The other events leave the tasks and the loop alone. -/
theorem step_other (h : x.step expectedId e = some x') :
    (∃ i e', e = .task i e') ∨ (∃ i, e = .select i) ∨
      (x'.tasks = x.tasks ∧ x'.pending = x.pending ∧ x'.returned = x.returned ∧
        e.own = false) := by
  cases e with
  | task i e' => exact .inl ⟨i, e', rfl⟩
  | select i => exact .inr (.inl ⟨i, rfl⟩)
  | othersAcquire now server | othersRelease now server incoming | cleanPool now =>
      cases h
      exact .inr (.inr ⟨rfl, rfl, rfl, rfl⟩)
  | othersTruncate server expiry | othersLock | othersUnlock | cleanTruncation now =>
      obtain ⟨_, h⟩ := Option.ite_none_left_eq_some.mp h
      cases h
      exact .inr (.inr ⟨rfl, rfl, rfl, rfl⟩)

/-- Every step of its own brings a call closer to its end. -/
theorem remaining_step (h : x.step expectedId e = some x') :
    x'.remaining + (if e.own then 1 else 0) ≤ x.remaining := by
  unfold remaining
  rcases step_other h with ⟨i, e, rfl⟩ | ⟨i, rfl⟩ | ⟨htasks, hpending, _, hown⟩
  · obtain ⟨t, t', net', ht, hstep, rfl⟩ := step_task_eq_some.mp h
    have hless := Task.remaining_step hstep
    have hsum := sum_map_set (fun t => t.phase.remaining) ht t'
    have hown : (ExchangeEvent.task i e).own = e.own := rfl
    rw [hown]
    dsimp only at hsum ⊢
    omega
  · obtain ⟨hpending, _, _, result, _, _, rfl⟩ := step_select_eq_some.mp h
    have hlen := List.length_erase_of_mem hpending
    have hpos := List.length_pos_of_mem hpending
    simp only [tasks_select, pending_select, ExchangeEvent.own, if_true]
    omega
  · rw [htasks, hpending, hown]
    simp

/-- Five events for each server at most. -/
theorem remaining_start (servers : List IpAddr) :
    (start servers).remaining = 5 * servers.length := by
  have hsum : ((servers.map Task.spawn).map fun t => t.phase.remaining).sum =
      4 * servers.length := by
    induction servers with
    | nil => rfl
    | cons server servers ih =>
        rw [List.map_cons, List.map_cons, List.sum_cons, ih, List.length_cons]
        simp only [Task.spawn, Phase.remaining]
        omega
  simp only [remaining, start, hsum, List.length_range]
  omega

/-- What the loop around `select_all` knows of the tasks. -/
structure Settles (x : Exchange) : Prop where
  nodup : x.pending.Nodup
  bound : ∀ i ∈ x.pending, i < x.tasks.length
  /-- The tasks it has looked at had no message. -/
  seen : (∀ m, x.returned ≠ some (some m)) → ∀ i t, x.tasks[i]? = some t → i ∉ x.pending →
    t.phase = .finished none
  open_ : x.returned = none → x.pending ≠ []
  gaveUp : x.returned = some none → x.pending = []

/-- Each server has a task, and none has ended. -/
theorem settles_start (servers : List IpAddr) : Settles (start servers) where
  nodup := List.nodup_range
  bound i hi := by simpa [start] using hi
  seen _ i t ht hi := by
    obtain ⟨hlt, _⟩ := List.getElem?_eq_some_iff.mp ht
    exact absurd (List.mem_range.mpr (by simpa [start] using hlt)) hi
  open_ h := by
    cases servers with
    | nil => cases h
    | cons server servers => simp [start]
  gaveUp h := by
    cases servers with
    | nil => rfl
    | cons server servers => cases h

/-- What a task does leaves the others as they are. -/
theorem settles_task {e : TaskEvent} (hx : Settles x)
    (h : x.step expectedId (.task i e) = some x') : Settles x' := by
  obtain ⟨t, t', net', ht, hstep, rfl⟩ := step_task_eq_some.mp h
  refine ⟨hx.nodup, ?_, ?_, hx.open_, hx.gaveUp⟩
  · simpa using hx.bound
  · intro hnone j other hother hj
    by_cases hij : i = j
    · -- A task that was looked at takes no further step.
      subst hij
      rw [finished_stays (hx.seen hnone i t ht hj)] at hstep
      cases hstep
    · rw [List.getElem?_set_ne hij] at hother
      exact hx.seen hnone j other hother hj

/-- A task that was taken is no longer pending. -/
theorem settles_select (hx : Settles x) (h : x.step expectedId (.select i) = some x') :
    Settles x' := by
  obtain ⟨hpending, hreturned, t, result, ht, hphase, rfl⟩ := step_select_eq_some.mp h
  refine ⟨?_, ?_, ?_, ?_, ?_⟩
  · rw [pending_select]
    exact hx.nodup.erase i
  · rw [pending_select, tasks_select]
    exact fun j hj => hx.bound j (List.mem_of_mem_erase hj)
  · intro hnone j other hother hj
    rw [pending_select] at hj
    rw [tasks_select] at hother
    by_cases hij : j = i
    · subst hij
      obtain rfl := Option.some.inj (ht.symm.trans hother)
      cases result with
      | none => exact hphase
      | some m => exact absurd rfl (hnone m)
    · exact hx.seen (by simp [hreturned]) j other hother fun hold =>
        hj ((List.mem_erase_of_ne hij).mpr hold)
  · intro hopen
    cases result with
    | some m => cases hopen
    | none => simpa [select] using hopen
  · intro hgaveUp
    cases result with
    | some m => cases hgaveUp
    | none =>
        rw [pending_select]
        by_contra hne
        simp [select, hne] at hgaveUp

/-- **The step lemma.** -/
theorem settles_step (hx : Settles x) (h : x.step expectedId e = some x') : Settles x' := by
  rcases step_other h with ⟨i, e, rfl⟩ | ⟨i, rfl⟩ | ⟨htasks, hpending, hreturned, _⟩
  · exact settles_task hx h
  · exact settles_select hx h
  · constructor
    · rw [hpending]
      exact hx.nodup
    · rw [hpending, htasks]
      exact hx.bound
    · rw [hpending, htasks, hreturned]
      exact hx.seen
    · rw [hpending, hreturned]
      exact hx.open_
    · rw [hpending, hreturned]
      exact hx.gaveUp

/-- If the lock is with the call, one of its tasks holds it. -/
def Held (x : Exchange) : Prop :=
  x.net.lock = .call → ∃ t ∈ x.tasks, t.phase.holds = true

/-- The lock is free at the start. -/
theorem held_start (servers : List IpAddr) : Held (start servers) := fun h => by cases h

/-- After a step of a task it holds the lock itself, or leaves it with its holder. -/
theorem held_task {e : TaskEvent} (hx : Held x) (h : x.step expectedId (.task i e) = some x') :
    Held x' := by
  obtain ⟨t, t', net', ht, hstep, rfl⟩ := step_task_eq_some.mp h
  intro hlock
  rcases Task.holds_step hstep hlock with hholds | ⟨hbefore, hfree⟩
  · obtain ⟨hlt, _⟩ := List.getElem?_eq_some_iff.mp ht
    exact ⟨t', List.mem_set hlt t', hholds⟩
  · obtain ⟨holder, hmem, hholds⟩ := hx hbefore
    obtain ⟨j, hj⟩ := List.mem_iff_getElem?.mp hmem
    have hne : i ≠ j := by
      rintro rfl
      obtain rfl := Option.some.inj (ht.symm.trans hj)
      rw [hfree] at hholds
      cases hholds
    refine ⟨holder, List.mem_of_getElem? (i := j) ?_, hholds⟩
    rw [List.getElem?_set_ne hne]
    exact hj

/-- **The step lemma** for the lock. -/
theorem held_step (hx : Held x) (h : x.step expectedId e = some x') : Held x' := by
  cases e with
  | task i e => exact held_task hx h
  | select i =>
      obtain ⟨_, _, _, result, _, _, rfl⟩ := step_select_eq_some.mp h
      cases result <;> exact hx
  | othersAcquire now server | othersRelease now server incoming | cleanPool now =>
      cases h
      exact hx
  | othersTruncate server expiry | cleanTruncation now =>
      obtain ⟨_, h⟩ := Option.ite_none_left_eq_some.mp h
      cases h
      exact hx
  | othersLock | othersUnlock =>
      obtain ⟨_, h⟩ := Option.ite_none_left_eq_some.mp h
      cases h
      exact fun hlock => by cases hlock

/-- The call cannot go on by itself. -/
def Stopped (expectedId : UInt16) (x : Exchange) : Prop :=
  ∀ e : ExchangeEvent, e.own = true → x.step expectedId e = none

/-- What is left of a call that has not returned and cannot go on: tasks that loop in the
decoder, tasks that have ended without a message, and tasks that wait for the lock. -/
structure LeftOver (x : Exchange) : Prop where
  tasks : ∀ t ∈ x.tasks, (∃ locked, t.phase = .hung locked) ∨ t.phase = .finished none ∨
    (t.Waits ∧ x.net.lock ≠ .nobody)
  /-- The lock of the call is with a task that loops. -/
  lock : x.net.lock = .call → ∃ t ∈ x.tasks, t.phase = .hung true
  /-- Somebody is in the way. -/
  blocked : (∃ t ∈ x.tasks, ∃ locked, t.phase = .hung locked) ∨ x.net.lock = .others

/-- Where a call stops before it returns, its tasks are as `LeftOver` says. -/
theorem Settles.stopped (hx : Settles x) (hheld : Held x) (hreturned : x.returned = none)
    (hstopped : Stopped expectedId x) : LeftOver x := by
  have htask : ∀ i t, x.tasks[i]? = some t → (∃ locked, t.phase = .hung locked) ∨
      (t.phase = .finished none ∧ i ∉ x.pending) ∨ (t.Waits ∧ x.net.lock ≠ .nobody) := by
    intro i t ht
    rcases Task.exists_step expectedId t x.net with ⟨result, hresult⟩ | hhung | hwaits |
      ⟨e, hown, hstep⟩
    · right
      left
      have hseen : i ∉ x.pending := by
        intro hpending
        have hselect : x.step expectedId (.select i) = some (x.select i result) :=
          step_select_eq_some.mpr ⟨hpending, hreturned, t, result, ht, hresult, rfl⟩
        rw [hstopped (.select i) rfl] at hselect
        cases hselect
      exact ⟨hx.seen (by simp [hreturned]) i t ht hseen, hseen⟩
    · exact .inl hhung
    · exact .inr (.inr hwaits)
    · obtain ⟨⟨t', net'⟩, hstep⟩ := Option.isSome_iff_exists.mp hstep
      have hgoes := step_task_eq_some.mpr ⟨t, t', net', ht, hstep, rfl⟩
      rw [hstopped (.task i e) hown] at hgoes
      cases hgoes
  have hlock : x.net.lock = .call → ∃ t ∈ x.tasks, t.phase = .hung true := by
    intro hcall
    obtain ⟨t, hmem, hholds⟩ := hheld hcall
    obtain ⟨i, hi⟩ := List.mem_iff_getElem?.mp hmem
    refine ⟨t, hmem, ?_⟩
    rcases htask i t hi with ⟨locked, hhung⟩ | ⟨hfinished, _⟩ | ⟨hwaits, _⟩
    · rw [hhung] at hholds ⊢
      exact congrArg Phase.hung hholds
    · rw [hfinished] at hholds
      cases hholds
    · -- Who waits for the lock does not hold it.
      cases hwaits with
      | spawned hphase =>
          rw [hphase] at hholds
          cases hholds
      | truncated hphase =>
          rw [hphase] at hholds
          cases hholds
  refine ⟨fun t ht => ?_, hlock, ?_⟩
  · obtain ⟨i, hi⟩ := List.mem_iff_getElem?.mp ht
    exact (htask i t hi).imp_right (Or.imp_left And.left)
  · obtain ⟨i, hi⟩ := List.exists_mem_of_ne_nil _ (hx.open_ hreturned)
    have ht := List.getElem?_eq_getElem (hx.bound i hi)
    rcases htask i _ ht with hhung | ⟨_, hseen⟩ | ⟨_, hnobody⟩
    · exact .inl ⟨_, List.mem_of_getElem? ht, hhung⟩
    · exact absurd hi hseen
    · cases hholder : x.net.lock with
      | nobody => exact absurd hholder hnobody
      | call =>
          obtain ⟨t, hmem, hhung⟩ := hlock hholder
          exact .inl ⟨t, hmem, true, hhung⟩
      | others => exact .inr rfl

/-- How a call ends that has come to the state `x`. -/
structure Completes (expectedId : UInt16) (servers : List IpAddr) (events : List ExchangeEvent)
    (x : Exchange) : Prop where
  bounded : events.countP ExchangeEvent.own ≤ 5 * servers.length
  stopped : x.returned = none → Stopped expectedId x → LeftOver x
  gaveUp : x.returned = some none → ∀ t ∈ x.tasks, t.phase = .finished none

/-- **A call comes to its end**, in every run, whatever is sent to it and whatever
other calls do. -/
theorem exchange_completes (expectedId : UInt16) (servers : List IpAddr)
    (events : List ExchangeEvent) (x : Exchange)
    (h : Trace (step expectedId) (start servers) events x) :
    Completes expectedId servers events x := by
  have hx : Settles x := h.invariant (settles_start servers) settles_step
  have hheld : Held x := h.invariant (held_start servers) held_step
  refine ⟨?_, hx.stopped hheld, fun hgaveUp t ht => ?_⟩
  · have hcount := h.countP_add_le remaining_step
    rw [remaining_start] at hcount
    omega
  · obtain ⟨i, hi⟩ := List.mem_iff_getElem?.mp ht
    refine hx.seen (by simp [hgaveUp]) i t hi ?_
    rw [hx.gaveUp hgaveUp]
    exact List.not_mem_nil

/-! ### A task that loops with the lock -/

def otherServer : IpAddr := .v4 ⟨199, 9, 14, 201⟩

/-- A reply whose first two bytes are a pointer to themselves, and the name in whose
question points to them. -/
def loopingReply : Bytes := [192, 0, 128, 0, 0, 1, 0, 0, 0, 0, 0, 0, 192, 0, 0, 1, 0, 1]

/-- Another call notes that the first server truncates. So its task goes straight to
TCP, and gets the reply there. -/
def lockedEvents : List ExchangeEvent :=
  [.othersTruncate askedServer 300, .task 0 (.start true), .task 0 (.connect 0 true),
    .task 0 (.arrive (0 :: 18 :: loopingReply)), .task 0 (.read 0)]

/-- The first task loops and keeps the lock; the second has not begun. -/
def lockedExchange : Exchange where
  tasks := [⟨askedServer, .hung true, [], some (⟨askedServer, dnsPort⟩, loopingReply)⟩,
    Task.spawn otherServer]
  net :=
    { pool := ((TcpPool.acquire (fun _ => []) 0 askedServer).2).release 0 askedServer
        ⟨⟨askedServer, dnsPort⟩, []⟩
      truncation := Function.update (fun _ => none) askedServer (some 300)
      lock := .call }
  pending := [0, 1]
  returned := none

theorem trace_locked :
    Trace (step 7) (start [askedServer, otherServer]) lockedEvents lockedExchange :=
  .of_foldlM rfl

/-- The first task hangs in the decoding, so nothing gives the lock back. -/
theorem stopped_locked : Stopped 7 lockedExchange := by
  intro e hown
  cases e with
  | task i e =>
      match i with
      | 0 => cases e <;> rfl
      | 1 => cases e <;> rfl
      | i + 2 => rfl
  | select i =>
      match i with
      | 0 => rfl
      | 1 => rfl
      | i + 2 => rfl
  | othersAcquire | othersRelease | othersTruncate | othersLock | othersUnlock | cleanPool
  | cleanTruncation => cases hown

/-- The call neither returns nor goes on, and its second task waits for the lock. -/
theorem exchange_completes_locked :
    Completes 7 [askedServer, otherServer] lockedEvents lockedExchange ∧
      LeftOver lockedExchange ∧ (Task.spawn otherServer).Waits := by
  have h := exchange_completes 7 [askedServer, otherServer] lockedEvents lockedExchange trace_locked
  exact ⟨h, h.stopped rfl stopped_locked, .spawned rfl⟩

end Exchange

end FastDns.Resolver
