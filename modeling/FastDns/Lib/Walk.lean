/-
Deterministic walks on a finite part of a type.

A loop whose control depends on one value only (a position, an address) is a
partial successor function `next : α → Option α`: `none` where the loop
returns. `walk next n a` is the value after `n` moves. When the moves all start
inside a finite set, the walk stops if and only if it never comes back to a
value (`stops_iff_not_revisits`), and if it stops at all it has stopped after
as many moves as the set has elements (`stops_iff_walk_card`). The second fact
is what lets a loop be executed with a fixed bound and no loss.
-/

import Mathlib.Data.Finset.Card
import Mathlib.Data.Fintype.Basic

namespace FastDns.Lib

variable {α : Type}

/-- The value after `n` moves, `none` once the walk has stopped. -/
def walk (next : α → Option α) : Nat → α → Option α
  | 0, a => some a
  | n + 1, a => (next a).bind (walk next n)

/-- The walk from `a` stops. -/
def Stops (next : α → Option α) (a : α) : Prop := ∃ n, walk next n a = none

/-- The walk from `a` passes through `b`. -/
def Visits (next : α → Option α) (a b : α) : Prop := ∃ n, walk next n a = some b

/-- The walk from `a` comes back to a value it has passed through. -/
def Revisits (next : α → Option α) (a : α) : Prop :=
  ∃ b, Visits next a b ∧ ∃ n, walk next (n + 1) b = some b

section Laws

variable {next : α → Option α} {a b : α}

theorem stops_of_none (hnext : next a = none) : Stops next a :=
  ⟨1, by rw [walk, hnext]; rfl⟩

theorem stops_of_next (hnext : next a = some b) (h : Stops next b) : Stops next a := by
  obtain ⟨n, hn⟩ := h
  exact ⟨n + 1, by rw [walk, hnext]; exact hn⟩

theorem walk_add (m n : Nat) (a : α) :
    walk next (m + n) a = (walk next m a).bind (walk next n) := by
  induction m generalizing a with
  | zero => simp [walk]
  | succ m ih =>
      rw [Nat.succ_add]
      simp only [walk]
      cases next a with
      | none => rfl
      | some c => exact ih c

/-- Once stopped, stopped for good. -/
theorem walk_eq_none_of_le {m n : Nat} (hle : m ≤ n) (h : walk next m a = none) :
    walk next n a = none := by
  obtain ⟨k, rfl⟩ := Nat.exists_eq_add_of_le hle
  rw [walk_add, h]
  rfl

/-- A value that leads back to itself leads back to itself any number of times. -/
theorem walk_mul_of_cycle {n : Nat} (h : walk next n b = some b) (k : Nat) :
    walk next (k * n) b = some b := by
  induction k with
  | zero => simp [walk]
  | succ k ih => rw [Nat.succ_mul, walk_add, ih, Option.bind_some, h]

/-- A walk that comes back to a value never stops. -/
theorem Revisits.not_stops (h : Revisits next a) : ¬ Stops next a := by
  rintro ⟨n, hn⟩
  obtain ⟨b, ⟨m, hm⟩, k, hk⟩ := h
  have hcycle := walk_mul_of_cycle hk n
  have hlong : walk next (m + n * (k + 1)) a = some b := by
    rw [walk_add, hm, Option.bind_some, hcycle]
  have hle : n ≤ m + n * (k + 1) :=
    (Nat.le_mul_of_pos_right n (Nat.succ_pos k)).trans (Nat.le_add_left _ _)
  rw [walk_eq_none_of_le hle hn] at hlong
  cases hlong

/-- A value with a successor is one the walk leaves. -/
theorem next_isSome_of_walk {i n : Nat} {c : α} (hi : i < n)
    (h : walk next n a ≠ none) (hc : walk next i a = some c) : next c ≠ none := by
  intro hnone
  apply h
  refine walk_eq_none_of_le (m := i + 1) hi ?_
  rw [walk_add, hc, Option.bind_some]
  simp [walk, hnone]

/-- **The pigeonhole step.** A walk still moving after more moves than there
are values to move from has come back to one of them. -/
theorem revisits_of_walk_card {S : Finset α} (hS : ∀ c, next c ≠ none → c ∈ S)
    (h : walk next (S.card + 1) a ≠ none) : Revisits next a := by
  classical
  have hvalue : ∀ i, i < S.card + 1 → ∃ c, walk next i a = some c := by
    intro i hi
    cases hw : walk next i a with
    | some c => exact ⟨c, rfl⟩
    | none => exact absurd (walk_eq_none_of_le (Nat.le_of_lt hi) hw) h
  have : Nonempty α := ⟨a⟩
  choose! p hp using hvalue
  have hmaps : ∀ i ∈ Finset.range (S.card + 1), p i ∈ S := by
    intro i hi
    have hlt := Finset.mem_range.mp hi
    exact hS _ (next_isSome_of_walk hlt h (hp i hlt))
  obtain ⟨i, hi, j, hj, hne, heq⟩ :=
    Finset.exists_ne_map_eq_of_card_lt_of_maps_to (by simp) hmaps
  -- Order the two visits; the later one is reached from the earlier one.
  have hordered : ∀ i j, i < j → j < S.card + 1 → p i = p j → Revisits next a := by
    intro i j hij hj heq
    refine ⟨p i, ⟨i, hp i (hij.trans hj)⟩, j - i - 1, ?_⟩
    have hsplit : walk next (i + (j - i)) a = some (p j) := by
      rw [Nat.add_sub_cancel' hij.le]
      exact hp j hj
    rw [walk_add, hp i (hij.trans hj), Option.bind_some, ← heq] at hsplit
    rw [show j - i - 1 + 1 = j - i by omega]
    exact hsplit
  rcases Nat.lt_or_gt_of_ne hne with hlt | hgt
  · exact hordered i j hlt (Finset.mem_range.mp hj) heq
  · exact hordered j i hgt (Finset.mem_range.mp hi) heq.symm

/-- **A walk in a finite set stops exactly when it never comes back.** -/
theorem stops_iff_not_revisits {S : Finset α} (hS : ∀ c, next c ≠ none → c ∈ S) :
    Stops next a ↔ ¬ Revisits next a := by
  constructor
  · exact fun hstop hcycle => hcycle.not_stops hstop
  · intro hacyclic
    refine ⟨S.card + 1, ?_⟩
    by_contra hmoving
    exact hacyclic (revisits_of_walk_card hS hmoving)

/-- A walk in a finite set that stops has stopped once every value was left. -/
theorem stops_iff_walk_card {S : Finset α} (hS : ∀ c, next c ≠ none → c ∈ S) :
    Stops next a ↔ walk next (S.card + 1) a = none := by
  constructor
  · intro hstop
    by_contra hmoving
    exact (revisits_of_walk_card hS hmoving).not_stops hstop
  · exact fun h => ⟨_, h⟩

end Laws

end FastDns.Lib
