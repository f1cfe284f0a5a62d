/-
NSEC and NSEC3 records as rings.

An honest zone links its owners, or their hashes, in order, and the last one back
to the first. Whatever name is asked for is then the same as an owner, and no
link covers it, or exactly one link does (`nsecRing_partitions`). The two kinds
of record decide the wrap-around by different formulas; both are the gap of an
ordered ring.
-/

import FastDns.Dnssec.Nxdomain

namespace FastDns.Dnssec

open FastDns.Lib FastDns.Dns FastDns.Resolver

/-- `nsec3_hash_in_range`; slices are compared byte by byte. -/
def nsec3HashInRange (ownerHash nextHash targetHash : Bytes) : Bool :=
  if compare ownerHash nextHash = .lt then
    compare targetHash ownerHash = .gt && compare targetHash nextHash = .lt
  else compare targetHash ownerHash = .gt || compare targetHash nextHash = .lt

theorem nsecCoversName_eq_inGap : nsecCoversName = inGap canonicalDnsNameOrder := rfl

theorem nsec3HashInRange_eq_inGap : nsec3HashInRange = inGap compare := by
  funext owner next target
  by_cases h : compare owner next = .lt
  · rw [nsec3HashInRange, if_pos h, inGap_of_lt h]
  · rw [nsec3HashInRange, if_neg h, inGap_of_not_lt h]

/-! ### The order of names -/

section Preorder

variable {a b c : Bytes}

/-- `a` comes before `b` or the order does not tell them apart. -/
def NameLe (a b : Bytes) : Prop := canonicalDnsNameOrder a b ≠ .gt

instance (a b : Bytes) : Decidable (NameLe a b) :=
  inferInstanceAs (Decidable (canonicalDnsNameOrder a b ≠ .gt))

theorem nameLe_total (a b : Bytes) : NameLe a b ∨ NameLe b a := by
  by_cases h : canonicalDnsNameOrder a b = .gt
  · right
    rw [NameLe, Std.OrientedCmp.lt_of_gt h]
    decide
  · exact .inl h

theorem nameLe_trans (hab : NameLe a b) (hbc : NameLe b c) : NameLe a c := by
  have hle := Std.TransCmp.isLE_trans (Ordering.isLE_iff_ne_gt.mpr hab)
    (Ordering.isLE_iff_ne_gt.mpr hbc)
  exact Ordering.isLE_iff_ne_gt.mp hle

theorem nameLe_antisymm_iff : NameLe a b ∧ NameLe b a ↔ nameKey a = nameKey b := by
  rw [← canonicalDnsNameOrder_eq_eq, NameLe, NameLe]
  constructor
  · rintro ⟨hab, hba⟩
    cases h : canonicalDnsNameOrder a b with
    | lt => exact absurd (Std.OrientedCmp.gt_of_lt h) hba
    | eq => rfl
    | gt => exact absurd h hab
  · intro h
    rw [h, Std.OrientedCmp.eq_symm h]
    decide

end Preorder

/-! ### The rings -/

/-- **A ring partitions the names.** The order of names is a total preorder in
which names are equivalent if they have the same labels up to case; the links of
owners in this order, and those of hashes in theirs, cover no owner, and
everything else exactly once. -/
theorem nsecRing_partitions :
    (∀ a b, NameLe a b ∨ NameLe b a) ∧ (∀ a b c, NameLe a b → NameLe b c → NameLe a c) ∧
      (∀ a b, NameLe a b ∧ NameLe b a ↔ nameKey a = nameKey b) ∧
      (∀ names : List Bytes, names ≠ [] →
        names.Pairwise (fun a b => NameLe a b ∧ ¬ NameLe b a) →
        Partitions (fun a b => nameKey a = nameKey b) nsecCoversName names) ∧
      ∀ hashes : List Bytes, hashes ≠ [] →
        hashes.Pairwise (fun a b => compare a b = .lt) →
        Partitions (fun a b => a = b) nsec3HashInRange hashes := by
  refine ⟨nameLe_total, fun a b c => nameLe_trans, fun a b => nameLe_antisymm_iff, ?_, ?_⟩
  · intro names hnonempty hsorted
    have hlt : names.Pairwise fun a b => canonicalDnsNameOrder a b = .lt := by
      refine hsorted.imp ?_
      rintro a b ⟨-, hnot⟩
      exact Std.OrientedCmp.lt_of_gt (not_not.mp hnot)
    have hring := partitions_inGap hnonempty hlt
    simp only [canonicalDnsNameOrder_eq_eq] at hring
    rw [nsecCoversName_eq_inGap]
    exact hring
  · intro hashes hnonempty hsorted
    have hring : Partitions (fun a b => compare a b = .eq) (inGap compare) hashes :=
      partitions_inGap hnonempty hsorted
    simp only [Std.LawfulEqOrd.compare_eq_iff_eq] at hring
    rw [nsec3HashInRange_eq_inGap]
    exact hring

/-- `a.test` in the ring of `test` and `*.test`, and a hash in a ring of one. -/
theorem nsecRing_partitions_wildcardZone :
    (successors [sampleZone, wildcardOf sampleZone]).countP
        (fun link => nsecCoversName link.1 link.2 deniedName) = 1 ∧
      (successors [([5] : Bytes)]).countP (fun link => nsec3HashInRange link.1 link.2 [7]) = 1 := by
  obtain ⟨-, -, -, hnames, hhashes⟩ := nsecRing_partitions
  constructor
  · exact (hnames [sampleZone, wildcardOf sampleZone] (by decide) (by decide +kernel) deniedName).2
      (by decide +kernel)
  · exact (hhashes [[5]] (by decide) (by decide) [7]).2 (by decide)

end FastDns.Dnssec
