/-
The closest encloser of a path in a tree.

A path is a list with the part next to the root last, so what encloses it are its
suffixes. A set of paths is closed if it has everything between two of its
members. What encloses a path most closely (`Closest`) need not be looked for
from the longest suffix down: in a closed set it is where one more part leaves
the set (`closest_iff`), which is what a single denial of existence shows.
-/

import Mathlib.Data.List.Infix

namespace FastDns.Lib

variable {α : Type}

/-- All between two members is a member. -/
def Closed (names : List (List α)) : Prop :=
  ∀ upper ∈ names, ∀ lower ∈ names, ∀ between,
    upper <:+ between → between <:+ lower → between ∈ names

/-- The longest suffix of the path among the names. -/
def Closest (names : List (List α)) (path encloser : List α) : Prop :=
  encloser ∈ names ∧ encloser <:+ path ∧
    ∀ other ∈ names, other <:+ path → other.length ≤ encloser.length

section Closest

variable {names : List (List α)} {path encloser other : List α}

theorem Closest.suffix (h : Closest names path encloser) (hother : other ∈ names)
    (hpath : other <:+ path) : other <:+ encloser :=
  List.suffix_of_suffix_length_le hpath h.2.1 (h.2.2 other hother hpath)

theorem Closest.unique (h : Closest names path encloser) (h' : Closest names path other) :
    encloser = other :=
  (h'.suffix h.1 h.2.1).eq_of_length_le (h.2.2 other h'.1 h'.2.1)

/-- Something that encloses the path can be made as long as possible. -/
theorem exists_closest (hother : other ∈ names) (hpath : other <:+ path) :
    ∃ encloser, Closest names path encloser ∧ other <:+ encloser := by
  induction path with
  | nil =>
      obtain rfl := List.suffix_nil.mp hpath
      refine ⟨[], ⟨hother, List.suffix_rfl, ?_⟩, List.suffix_rfl⟩
      intro longer _ hlonger
      rw [List.suffix_nil.mp hlonger]
  | cons label path ih =>
      by_cases hmem : label :: path ∈ names
      · exact ⟨label :: path, ⟨hmem, List.suffix_rfl, fun _ _ h => h.length_le⟩, hpath⟩
      · -- The whole path is not a member, so every member is a suffix of the rest.
        have hrest : ∀ {name}, name ∈ names → name <:+ label :: path → name <:+ path := by
          intro name hname hsuffix
          rcases List.suffix_cons_iff.mp hsuffix with rfl | hsuffix
          · exact absurd hname hmem
          · exact hsuffix
        obtain ⟨encloser, ⟨hencloser, hends, hlongest⟩, hbelow⟩ := ih (hrest hother hpath)
        refine ⟨encloser, ⟨hencloser, hends.trans (List.suffix_cons label path), ?_⟩, hbelow⟩
        exact fun longer hlonger hsuffix => hlongest longer hlonger (hrest hlonger hsuffix)

/-- What encloses a path properly ends in the path after one part. -/
theorem exists_next (hends : encloser <:+ path) (hne : encloser ≠ path) :
    ∃ label, label :: encloser <:+ path := by
  obtain ⟨before, rfl⟩ := hends
  obtain ⟨start, label, rfl⟩ := (List.eq_nil_or_concat' before).resolve_left (by simpa using hne)
  exact ⟨label, start, by simp⟩

/-- **The closest encloser is where one more part leaves the set.** -/
theorem closest_iff (hclosed : Closed names) :
    Closest names path encloser ∧ path ∉ names ↔
      encloser ∈ names ∧ ∃ label, label :: encloser <:+ path ∧ label :: encloser ∉ names := by
  constructor
  · rintro ⟨hclosest, hmissing⟩
    have hne : encloser ≠ path := by
      rintro rfl
      exact hmissing hclosest.1
    obtain ⟨label, hnext⟩ := exists_next hclosest.2.1 hne
    refine ⟨hclosest.1, label, hnext, fun hmem => ?_⟩
    exact Nat.not_succ_le_self _ (hclosest.2.2 _ hmem hnext)
  · rintro ⟨hmem, label, hnext, hmissing⟩
    have hends : encloser <:+ path := (List.suffix_cons label encloser).trans hnext
    -- A longer member would have the next name between itself and the encloser.
    have hnone : ∀ longer ∈ names, longer <:+ path → longer.length ≤ encloser.length := by
      intro longer hlonger hsuffix
      by_contra hlength
      refine hmissing (hclosed encloser hmem longer hlonger _ (List.suffix_cons label encloser) ?_)
      exact List.suffix_of_suffix_length_le hnext hsuffix (Nat.not_le.mp hlength)
    refine ⟨⟨hmem, hends, hnone⟩, fun hpath => ?_⟩
    exact Nat.not_succ_le_self _ (hnext.length_le.trans (hnone path hpath List.suffix_rfl))

end Closest

end FastDns.Lib
