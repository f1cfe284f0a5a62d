/-
Jobs and permits.

A semaphore with a fixed number of permits decides which jobs run. A job that
finds no permit is turned away (`tryAcquire`) or waits in a queue (`acquire`); one
that ends gives its permit back, to the first job that waits if there is one
(`release`). The free permits are a counter of their own: that they and the
running jobs make up the capacity is an invariant (`Admission.Fits`), not the
definition.

Every job that has asked has started, waits, or was turned away, and every job
that has started runs or has finished (`Admission.Settles`). A job may be done with
its work before it gives its permit back; such jobs are among the running ones
(`Admission.Leaves`).
-/

import Mathlib.Data.List.Nodup
import Mathlib.Data.List.Perm.Basic
import Mathlib.Tactic.Common

namespace FastDns.Lib

/-- The jobs around a semaphore. -/
structure Admission (ι : Type) where
  /-- Permits that no job has. -/
  free : Nat
  running : List ι
  /-- Jobs that wait for a permit, the first one in front. -/
  waiting : List ι
  /-- The jobs that got a permit, in this order. -/
  started : List ι
  refused : List ι
  finished : List ι

namespace Admission

variable {ι : Type}

def new (capacity : Nat) : Admission ι := ⟨capacity, [], [], [], [], []⟩

/-- The job gets a permit. -/
def start (a : Admission ι) (i : ι) : Admission ι :=
  { a with free := a.free - 1, running := a.running ++ [i], started := a.started ++ [i] }

/-- `try_acquire_owned`: the job runs, or is turned away. -/
def tryAcquire (a : Admission ι) (i : ι) : Admission ι :=
  if a.free = 0 then { a with refused := a.refused ++ [i] } else a.start i

/-- `acquire_owned`: the job runs, or waits. -/
def acquire (a : Admission ι) (i : ι) : Admission ι :=
  if a.free = 0 then { a with waiting := a.waiting ++ [i] } else a.start i

/-- The permit of a job is dropped. -/
def release [DecidableEq ι] (a : Admission ι) (i : ι) : Admission ι :=
  match a.waiting with
  | [] => { a with
      free := a.free + 1
      running := a.running.erase i
      finished := a.finished ++ [i] }
  | next :: rest => { a with
      running := a.running.erase i ++ [next]
      waiting := rest
      started := a.started ++ [next]
      finished := a.finished ++ [i] }

@[simp] theorem finished_tryAcquire (a : Admission ι) (i : ι) :
    (a.tryAcquire i).finished = a.finished := by
  unfold tryAcquire
  split <;> rfl

@[simp] theorem waiting_tryAcquire (a : Admission ι) (i : ι) :
    (a.tryAcquire i).waiting = a.waiting := by
  unfold tryAcquire
  split <;> rfl

@[simp] theorem finished_acquire (a : Admission ι) (i : ι) :
    (a.acquire i).finished = a.finished := by
  unfold acquire
  split <;> rfl

/-- A job without a permit is turned away. -/
theorem tryAcquire_full {a : Admission ι} (hfull : a.free = 0) (i : ι) :
    a.tryAcquire i = { a with refused := a.refused ++ [i] } :=
  if_pos hfull

/-- A job that runs goes on when another one asks. -/
theorem mem_running_tryAcquire {a : Admission ι} {i : ι} (hi : i ∈ a.running) (j : ι) :
    i ∈ (a.tryAcquire j).running := by
  unfold tryAcquire
  split
  · exact hi
  · exact List.mem_append_left _ hi

/-- The jobs that wait or run. -/
def active (a : Admission ι) : List ι := a.waiting ++ a.running

/-- The job that asks becomes active, and nothing else changes. -/
theorem active_acquire (a : Admission ι) (i : ι) : (a.acquire i).active.Perm (i :: a.active) := by
  unfold acquire active
  split
  · rw [List.append_assoc, List.singleton_append]
    exact List.perm_middle
  · rw [start, ← List.append_assoc]
    exact List.perm_append_singleton i _

section Release

variable [DecidableEq ι]

/-- The job that ends is no longer active, and nothing else changes. -/
theorem active_release {a : Admission ι} {i : ι} (hi : i ∈ a.running) :
    (i :: (a.release i).active).Perm a.active := by
  have herase := List.perm_cons_erase hi
  unfold release active
  split
  · rename_i hwaiting
    rw [hwaiting]
    exact herase.symm
  · rename_i next rest hwaiting
    rw [hwaiting, List.perm_iff_count]
    intro j
    have hj := herase.count_eq j
    simp only [List.count_append, List.count_cons, List.count_nil] at hj ⊢
    omega

/-- With nobody waiting the permit becomes free. -/
theorem release_of_idle {a : Admission ι} (hwaiting : a.waiting = []) (i : ι) :
    a.release i = { a with
      free := a.free + 1
      running := a.running.erase i
      finished := a.finished ++ [i] } := by
  unfold release
  split
  · rfl
  · rename_i hsome
    rw [hwaiting] at hsome
    cases hsome

@[simp] theorem finished_release (a : Admission ι) (i : ι) :
    (a.release i).finished = a.finished ++ [i] := by
  unfold release
  split <;> rfl

@[simp] theorem refused_release (a : Admission ι) (i : ι) : (a.release i).refused = a.refused := by
  unfold release
  split <;> rfl

@[simp] theorem waiting_release (a : Admission ι) (i : ι) :
    (a.release i).waiting = a.waiting.tail := by
  unfold release
  split
  · rename_i hwaiting
    simp [hwaiting]
  · rename_i hwaiting
    simp [hwaiting]

end Release

/-! ### Permits -/

/-- Permits are neither lost nor made, and no job waits while one is free. -/
structure Fits (capacity : Nat) (a : Admission ι) : Prop where
  conserved : a.free + a.running.length = capacity
  busy : a.waiting ≠ [] → a.free = 0

section Permits

variable {capacity : Nat} {a : Admission ι} {i : ι}

/-- All permits are free at the start. -/
theorem fits_new (capacity : Nat) : (new capacity : Admission ι).Fits capacity :=
  ⟨rfl, fun h => absurd rfl h⟩

/-- No more jobs run than there are permits. -/
theorem Fits.running_le (h : a.Fits capacity) : a.running.length ≤ capacity := by
  have := h.conserved
  omega

/-- Every operation keeps the count of the permits. -/
theorem Fits.start (h : a.Fits capacity) (hfree : a.free ≠ 0) (i : ι) :
    (a.start i).Fits capacity := by
  have hconserved := h.conserved
  refine ⟨?_, fun hwaiting => absurd (h.busy hwaiting) hfree⟩
  simp only [Admission.start, List.length_append, List.length_singleton]
  omega

theorem Fits.tryAcquire (h : a.Fits capacity) (i : ι) : (a.tryAcquire i).Fits capacity := by
  unfold Admission.tryAcquire
  split
  · exact ⟨h.conserved, h.busy⟩
  · rename_i hfree
    exact h.start hfree i

theorem Fits.acquire (h : a.Fits capacity) (i : ι) : (a.acquire i).Fits capacity := by
  unfold Admission.acquire
  split
  · rename_i hfree
    exact ⟨h.conserved, fun _ => hfree⟩
  · rename_i hfree
    exact h.start hfree i

theorem Fits.release [DecidableEq ι] (h : a.Fits capacity) (hi : i ∈ a.running) :
    (a.release i).Fits capacity := by
  have hconserved := h.conserved
  have hpos := List.length_pos_of_mem hi
  have hlen := List.length_erase_of_mem hi
  unfold Admission.release
  cases hwaiting : a.waiting with
  | nil =>
      refine ⟨?_, fun hne => absurd rfl hne⟩
      simp only [hlen]
      omega
  | cons next rest =>
      have hfree : a.free = 0 := h.busy (by rw [hwaiting]; exact List.cons_ne_nil _ _)
      refine ⟨?_, fun _ => hfree⟩
      simp only [List.length_append, List.length_singleton, hlen]
      omega

/-- A job is turned away only while every permit is taken. -/
theorem refused_tryAcquire (h : a.Fits capacity)
    (hrefused : (a.tryAcquire i).refused ≠ a.refused) : a.running.length = capacity := by
  have hconserved := h.conserved
  unfold Admission.tryAcquire at hrefused
  split at hrefused
  · omega
  · exact absurd rfl hrefused

/-- Once all running jobs have ended, every permit is free again. -/
theorem Fits.free_of_idle (h : a.Fits capacity) (hidle : a.running = []) : a.free = capacity := by
  have hconserved := h.conserved
  rw [hidle, List.length_nil] at hconserved
  omega

end Permits

/-! ### Jobs -/

/-- Where the jobs that asked for a permit have gone. -/
structure Settles (asked : List ι) (a : Admission ι) : Prop where
  asked : asked.Perm (a.started ++ a.waiting ++ a.refused)
  started : a.started.Perm (a.running ++ a.finished)

/-- Nobody has asked at the start. -/
theorem settles_new (capacity : Nat) : (new capacity : Admission ι).Settles [] := ⟨.refl _, .refl _⟩

section Jobs

variable [DecidableEq ι] {asked : List ι} {a : Admission ι}

/-- A job that asks is settled by the operation that answers it. -/
theorem Settles.start (h : a.Settles asked) (i : ι) : (a.start i).Settles (asked ++ [i]) := by
  constructor
  · rw [List.perm_iff_count]
    intro j
    have hasked := h.asked.count_eq j
    simp only [Admission.start, List.count_append] at hasked ⊢
    omega
  · rw [List.perm_iff_count]
    intro j
    have hstarted := h.started.count_eq j
    simp only [Admission.start, List.count_append] at hstarted ⊢
    omega

theorem Settles.tryAcquire (h : a.Settles asked) (i : ι) :
    (a.tryAcquire i).Settles (asked ++ [i]) := by
  unfold Admission.tryAcquire
  split
  · refine ⟨?_, h.started⟩
    rw [← List.append_assoc]
    exact h.asked.append_right [i]
  · exact h.start i

/-- Ending a job does not change who has asked. -/
theorem Settles.release (h : a.Settles asked) {i : ι} (hi : i ∈ a.running) :
    (a.release i).Settles asked := by
  have hasked := fun j => h.asked.count_eq j
  have hstarted := fun j => h.started.count_eq j
  have herase := fun j => (List.perm_cons_erase hi).count_eq j
  simp only [List.count_append] at hasked hstarted
  unfold Admission.release
  cases hwaiting : a.waiting with
  | nil =>
      have hwhole := h.asked
      rw [hwaiting] at hwhole
      refine ⟨hwhole, ?_⟩
      rw [List.perm_iff_count]
      intro j
      have hj := hstarted j
      have hej := herase j
      simp only [List.count_append, List.count_cons, List.count_nil] at hej ⊢
      omega
  | cons next rest =>
      constructor
      · rw [List.perm_iff_count]
        intro j
        have hj := hasked j
        rw [hwaiting] at hj
        simp only [List.count_append, List.count_cons, List.count_nil] at hj ⊢
        omega
      · rw [List.perm_iff_count]
        intro j
        have hj := hstarted j
        have hej := herase j
        simp only [List.count_append, List.count_cons, List.count_nil] at hej ⊢
        omega

end Jobs

/-! ### Jobs that are done -/

/-- Running jobs that are done with their work, each once. -/
structure Leaves (leaving : List ι) (a : Admission ι) : Prop where
  nodup : leaving.Nodup
  running : ∀ i ∈ leaving, i ∈ a.running

section Leaving

variable {leaving asked : List ι} {a : Admission ι} {i : ι}

/-- At the start no job is about to end. -/
theorem leaves_nil (a : Admission ι) : a.Leaves [] :=
  ⟨List.nodup_nil, fun _ h => absurd h List.not_mem_nil⟩

/-- A job that asks is not one that ends. -/
theorem Leaves.tryAcquire (h : a.Leaves leaving) (i : ι) : (a.tryAcquire i).Leaves leaving :=
  ⟨h.nodup, fun j hj => mem_running_tryAcquire (h.running j hj) i⟩

/-- One more job is done. -/
theorem Leaves.add (h : a.Leaves leaving) (hi : i ∈ a.running) (hbusy : i ∉ leaving) :
    a.Leaves (leaving ++ [i]) := by
  constructor
  · rw [← List.concat_eq_append]
    exact List.Nodup.concat hbusy h.nodup
  · intro j hj
    rcases List.mem_append.mp hj with hold | hnew
    · exact h.running j hold
    · rw [List.mem_singleton.mp hnew]
      exact hi

/-- The jobs that are done and those that were turned away are different ones. -/
theorem Leaves.distinct (h : a.Leaves leaving) (hsettles : a.Settles asked)
    (hasked : asked.Nodup) : (leaving ++ a.finished ++ a.refused).Nodup := by
  have hwhole := hsettles.asked.nodup_iff.mp hasked
  have hstarted : (a.started ++ a.refused).Nodup :=
    hwhole.sublist ((List.sublist_append_left _ _).append (.refl _))
  have hplaced : (a.running ++ a.finished ++ a.refused).Nodup :=
    (hsettles.started.append_right _).nodup_iff.mp hstarted
  rw [List.append_assoc] at hplaced ⊢
  obtain ⟨out, hperm, hsub⟩ := (List.subperm_append_right (a.finished ++ a.refused)).mpr
    (List.subperm_of_subset h.nodup h.running)
  exact hperm.nodup_iff.mp (hsub.nodup hplaced)

variable [DecidableEq ι]

/-- A job that is done drops its permit. -/
theorem Leaves.release (h : a.Leaves leaving) (i : ι) :
    (a.release i).Leaves (leaving.erase i) := by
  refine ⟨h.nodup.erase i, fun j hj => ?_⟩
  obtain ⟨hne, hold⟩ := h.nodup.mem_erase_iff.mp hj
  have hkept : j ∈ a.running.erase i := (List.mem_erase_of_ne hne).mpr (h.running j hold)
  unfold Admission.release
  split
  · exact hkept
  · exact List.mem_append_left _ hkept

/-- Jobs that are done stay what they are when one of them drops its permit. -/
theorem done_release (hi : i ∈ leaving) :
    (leaving ++ a.finished).Perm (leaving.erase i ++ (a.release i).finished) := by
  rw [finished_release, ← List.append_assoc]
  refine ((List.perm_cons_erase hi).append_right _).trans ?_
  rw [List.cons_append]
  exact (List.perm_append_singleton i _).symm

end Leaving

end Admission

end FastDns.Lib
