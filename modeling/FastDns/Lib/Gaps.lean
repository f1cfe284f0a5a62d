/-
The gaps between the elements of an ordered list.

The list is a ring: each element points to the one after it, and the last one to
the first (`successors`). An element and what it points to enclose a gap
(`inGap`); the gap behind the last element is all that comes after it or before
the first one. What lies in a gap is not in the list (`not_mem_of_inGap`), and
what is not in the list lies in exactly one gap (`countP_inGap`).
-/

import Mathlib.Data.List.Rotate

namespace FastDns.Lib

variable {α β : Type}

/-- Each element with the one after it, and the last one with the first. -/
def successors (xs : List α) : List (α × α) := xs.zip (xs.rotate 1)

/-- `q` is strictly between `a` and `b`, or outside if `a` is not before `b`. -/
def inGap (cmp : α → α → Ordering) (a b q : α) : Bool :=
  if cmp a b = .gt ∨ cmp a b = .eq then cmp q a = .gt || cmp q b = .lt
  else cmp q a = .gt && cmp q b = .lt

theorem successors_map (f : α → β) (xs : List α) :
    successors (xs.map f) = (successors xs).map (Prod.map f f) := by
  rw [successors, successors, ← List.map_rotate, List.zip_map]

/-- Each element has one link. -/
theorem map_fst_successors (xs : List α) : (successors xs).map Prod.fst = xs := by
  rw [successors, List.map_fst_zip]
  rw [List.length_rotate]

/-- Two neighbours, or the two ends. -/
theorem mem_zip_append {x y a b : α} {ys : List α} (h : (a, b) ∈ (y :: ys).zip (ys ++ [x])) :
    (∃ before after, y :: ys = before ++ a :: b :: after) ∨
      b = x ∧ ∃ before, y :: ys = before ++ [a] := by
  induction ys generalizing y with
  | nil =>
      obtain ⟨rfl, rfl⟩ := Prod.mk.inj (List.mem_singleton.mp h)
      exact .inr ⟨rfl, [], rfl⟩
  | cons z zs ih =>
      rcases List.mem_cons.mp h with heq | hrest
      · obtain ⟨rfl, rfl⟩ := Prod.mk.inj heq
        exact .inl ⟨[], zs, rfl⟩
      · rcases ih hrest with ⟨before, after, hsplit⟩ | ⟨hlast, before, hsplit⟩
        · exact .inl ⟨y :: before, after, by rw [hsplit, List.cons_append]⟩
        · exact .inr ⟨hlast, y :: before, by rw [hsplit, List.cons_append]⟩

section Order

variable {cmp : α → α → Ordering} {xs before after : List α} {a b q x : α}

theorem inGap_left_or_right (h : inGap cmp a b q = true) : cmp q a = .gt ∨ cmp q b = .lt := by
  unfold inGap at h
  split at h
  · simpa using h
  · simp only [Bool.and_eq_true, decide_eq_true_eq] at h
    exact .inl h.1

theorem inGap_of_lt (hab : cmp a b = .lt) :
    inGap cmp a b q = (decide (cmp q a = .gt) && decide (cmp q b = .lt)) := by
  simp [inGap, hab]

theorem inGap_of_not_lt (hab : cmp a b ≠ .lt) :
    inGap cmp a b q = (decide (cmp q a = .gt) || decide (cmp q b = .lt)) := by
  have hlast : cmp a b = .gt ∨ cmp a b = .eq := by
    cases h : cmp a b with
    | lt => exact absurd h hab
    | eq => exact .inr rfl
    | gt => exact .inl rfl
  simp [inGap, hlast]

theorem inGap_between (hab : cmp a b = .lt) (h : inGap cmp a b q = true) :
    cmp q a = .gt ∧ cmp q b = .lt := by
  simpa [inGap_of_lt hab] using h

variable [Std.TransCmp cmp]

/-- Nothing up to `a` is after `a`. -/
theorem not_gt_of_sorted (hsorted : (before ++ a :: after).Pairwise fun a b => cmp a b = .lt)
    (hx : x ∈ before ++ [a]) : cmp x a ≠ .gt := by
  have hbefore := (List.pairwise_append.mp hsorted).2.2
  have hself : cmp a a = .eq := Std.ReflCmp.compare_self
  rcases List.mem_append.mp hx with hin | hlast
  · rw [hbefore x hin a List.mem_cons_self]
    decide
  · rw [List.mem_singleton.mp hlast, hself]
    decide

/-- Nothing from `b` on is before `b`. -/
theorem not_lt_of_sorted (hsorted : (before ++ b :: after).Pairwise fun a b => cmp a b = .lt)
    (hx : x ∈ b :: after) : cmp x b ≠ .lt := by
  have hafter := (List.pairwise_cons.mp (List.pairwise_append.mp hsorted).2.1).1
  have hself : cmp b b = .eq := Std.ReflCmp.compare_self
  rcases List.mem_cons.mp hx with rfl | hin
  · rw [hself]
    decide
  · rw [Std.OrientedCmp.gt_of_lt (hafter x hin)]
    decide

/-- **No element of the list lies in a gap.** -/
theorem not_mem_of_inGap (hsorted : xs.Pairwise fun a b => cmp a b = .lt)
    (hmem : (a, b) ∈ successors xs) (hgap : inGap cmp a b q = true) :
    ∀ x ∈ xs, cmp x q ≠ .eq := by
  intro x hx heq
  cases xs with
  | nil => cases hx
  | cons y ys =>
      rw [successors, List.rotate_cons_succ, List.rotate_zero] at hmem
      rcases mem_zip_append hmem with ⟨before, after, hsplit⟩ | ⟨rfl, before, hsplit⟩
      · -- `q` is between two neighbours: `x` is one of those up to `a` or from `b` on.
        rw [hsplit] at hsorted hx
        have hab : cmp a b = .lt := (List.pairwise_cons.mp
          (List.pairwise_append.mp hsorted).2.1).1 b List.mem_cons_self
        obtain ⟨hqa, hqb⟩ := inGap_between hab hgap
        rw [← Std.TransCmp.congr_left heq] at hqa hqb
        have hside : x ∈ before ++ [a] ∨ x ∈ b :: after := by simpa [or_assoc] using hx
        rcases hside with hleft | hright
        · exact not_gt_of_sorted hsorted hleft hqa
        · rw [List.append_cons] at hsorted
          exact not_lt_of_sorted hsorted hright hqb
      · -- `q` is behind the last element or before the first one.
        rcases inGap_left_or_right hgap with hqa | hqb
        · rw [← Std.TransCmp.congr_left heq] at hqa
          rw [hsplit] at hsorted hx
          exact not_gt_of_sorted hsorted hx hqa
        · rw [← Std.TransCmp.congr_left heq] at hqb
          have hwhole : (([] : List α) ++ b :: ys).Pairwise fun a b => cmp a b = .lt := hsorted
          exact not_lt_of_sorted hwhole hx hqb

/-! #### One gap for each element that is missing

The part of the ring from `y` on, closed by the link to `x`, is
`(y :: ys).zip (ys ++ [x])`. -/

section Count

variable {y : α} {ys : List α}

/-- The links from `y` on, for something before `y`: only the last one can count. -/
theorem countP_before (hsorted : (y :: ys).Pairwise fun a b => cmp a b = .lt)
    (hxy : cmp y x ≠ .lt) (hq : cmp q y = .lt) :
    ((y :: ys).zip (ys ++ [x])).countP (fun link => inGap cmp link.1 link.2 q) =
      if cmp q x = .lt then 1 else 0 := by
  induction ys generalizing y with
  | nil =>
      have hgap : inGap cmp y x q = decide (cmp q x = .lt) := by
        rw [inGap_of_not_lt hxy, hq]
        rfl
      rw [List.nil_append, List.zip_cons_cons, List.zip_nil_left, List.countP_singleton, hgap]
      simp only [decide_eq_true_eq]
  | cons z zs ih =>
      obtain ⟨hhead, htail⟩ := List.pairwise_cons.mp hsorted
      have hyz : cmp y z = .lt := hhead z List.mem_cons_self
      have hmiss : ¬ inGap cmp y z q = true := by
        rw [inGap_of_lt hyz, hq]
        simp
      have hzx : cmp z x ≠ .lt := fun h => hxy (Std.TransCmp.lt_trans hyz h)
      rw [List.cons_append, List.zip_cons_cons, List.countP_cons, if_neg hmiss]
      exact ih htail hzx (Std.TransCmp.lt_trans hq hyz)

/-- The links from `y` on, for something after `y` and not before `x`. -/
theorem countP_after (hsorted : (y :: ys).Pairwise fun a b => cmp a b = .lt)
    (hxy : cmp y x ≠ .lt) (hne : ∀ z ∈ ys, cmp q z ≠ .eq) (hq : cmp q y = .gt)
    (hqx : cmp q x ≠ .lt) :
    ((y :: ys).zip (ys ++ [x])).countP (fun link => inGap cmp link.1 link.2 q) = 1 := by
  induction ys generalizing y with
  | nil =>
      have hgap : inGap cmp y x q = true := by
        rw [inGap_of_not_lt hxy, hq]
        rfl
      rw [List.nil_append, List.zip_cons_cons, List.zip_nil_left, List.countP_singleton,
        if_pos hgap]
  | cons z zs ih =>
      obtain ⟨hhead, htail⟩ := List.pairwise_cons.mp hsorted
      have hyz : cmp y z = .lt := hhead z List.mem_cons_self
      have hzx : cmp z x ≠ .lt := fun h => hxy (Std.TransCmp.lt_trans hyz h)
      rw [List.cons_append, List.zip_cons_cons]
      cases hqz : cmp q z with
      | lt =>
          -- The gap is this one, and none of those behind it.
          have hgap : inGap cmp y z q = true := by
            rw [inGap_of_lt hyz, hq, hqz]
            rfl
          rw [List.countP_cons, if_pos hgap, countP_before htail hzx hqz, if_neg hqx]
      | eq => exact absurd hqz (hne z List.mem_cons_self)
      | gt =>
          have hmiss : ¬ inGap cmp y z q = true := by
            rw [inGap_of_lt hyz, hqz]
            simp
          rw [List.countP_cons, if_neg hmiss]
          exact ih htail hzx (fun w hw => hne w (List.mem_cons_of_mem _ hw)) hqz

end Count

/-- **What is not in the list lies in exactly one gap.** -/
theorem countP_inGap (hnonempty : xs ≠ []) (hsorted : xs.Pairwise fun a b => cmp a b = .lt)
    (hne : ∀ x ∈ xs, cmp x q ≠ .eq) :
    (successors xs).countP (fun link => inGap cmp link.1 link.2 q) = 1 := by
  cases xs with
  | nil => exact absurd rfl hnonempty
  | cons y ys =>
      have hself : cmp y y ≠ .lt := by
        intro hlt
        have heq : cmp y y = .eq := Std.ReflCmp.compare_self
        rw [heq] at hlt
        cases hlt
      have hne' : ∀ z ∈ y :: ys, cmp q z ≠ .eq :=
        fun z hz heq => hne z hz (Std.OrientedCmp.eq_symm heq)
      rw [successors, List.rotate_cons_succ, List.rotate_zero]
      cases hq : cmp q y with
      | lt => rw [countP_before hsorted hself hq, if_pos hq]
      | eq => exact absurd hq (hne' y List.mem_cons_self)
      | gt =>
          have hqy : cmp q y ≠ .lt := by
            rw [hq]
            decide
          exact countP_after hsorted hself (fun z hz => hne' z (List.mem_cons_of_mem _ hz)) hq hqy

/-- **The gaps are where the list has nothing.** -/
theorem exists_inGap_iff (hnonempty : xs ≠ []) (hsorted : xs.Pairwise fun a b => cmp a b = .lt) :
    (∃ link ∈ successors xs, inGap cmp link.1 link.2 q = true) ↔ ∀ x ∈ xs, cmp x q ≠ .eq := by
  constructor
  · rintro ⟨⟨a, b⟩, hlink, hgap⟩
    exact not_mem_of_inGap hsorted hlink hgap
  · intro hne
    have hone := countP_inGap hnonempty hsorted hne
    exact List.countP_pos_iff.mp (hone ▸ Nat.one_pos)

/-- The links of the ring of `xs` cover nothing that is the same as one of `xs`,
and everything else once. -/
def Partitions (same : α → α → Prop) (covers : α → α → α → Bool) (xs : List α) : Prop :=
  ∀ q, ((∃ x ∈ xs, same x q) → ∀ link ∈ successors xs, covers link.1 link.2 q = false) ∧
    ((∀ x ∈ xs, ¬ same x q) →
      (successors xs).countP (fun link => covers link.1 link.2 q) = 1)

theorem partitions_inGap (hnonempty : xs ≠ []) (hsorted : xs.Pairwise fun a b => cmp a b = .lt) :
    Partitions (fun a b => cmp a b = .eq) (inGap cmp) xs := by
  intro q
  constructor
  · rintro ⟨x, hx, hsame⟩ ⟨a, b⟩ hlink
    rw [← Bool.not_eq_true]
    intro hgap
    exact not_mem_of_inGap hsorted hlink hgap x hx hsame
  · exact countP_inGap hnonempty hsorted

end Order

end FastDns.Lib
