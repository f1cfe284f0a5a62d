/-
Fields packed into the bits of one word.

A `BitRange` is a run of bits. `BitRange.get` takes the field in it out of a word by a
shift and a mask, and `pack` puts one value into the range of each field by a shift and
an or. The two undo each other for separate reasons. A value comes back exactly when no
other field puts a one into its range (`get_pack_iff`); a word comes back when the
ranges leave no bit of it out, whether they overlap or not (`pack_get`).
-/

import Mathlib.Algebra.Group.Nat.Defs
import Mathlib.Tactic.Common

namespace FastDns.Lib

/-- The bits of a word from `low` on, `width` of them. -/
structure BitRange where
  low : Nat
  width : Nat
deriving DecidableEq, Repr

namespace BitRange

/-- The bit belongs to the range. -/
def Holds (r : BitRange) (i : Nat) : Prop := r.low ≤ i ∧ i < r.low + r.width

instance (r : BitRange) (i : Nat) : Decidable (r.Holds i) :=
  inferInstanceAs (Decidable (_ ∧ _))

/-- No bit belongs to both ranges. -/
def Disjoint (r s : BitRange) : Prop := ∀ i, r.Holds i → ¬ s.Holds i

/-- The field of a word in this range. -/
def get (r : BitRange) (word : Nat) : Nat := (word >>> r.low) % 2 ^ r.width

section Get

variable {r s : BitRange} {word i : Nat}

theorem holds_add_iff : r.Holds (r.low + i) ↔ i < r.width := by
  unfold Holds
  omega

/-- Ranges are disjoint when one ends before the other begins. -/
theorem disjoint_of_le (h : r.low + r.width ≤ s.low ∨ s.low + s.width ≤ r.low) : r.Disjoint s := by
  rintro i ⟨_, _⟩ ⟨_, _⟩
  omega

theorem get_lt (r : BitRange) (word : Nat) : r.get word < 2 ^ r.width :=
  Nat.mod_lt _ (Nat.two_pow_pos _)

theorem testBit_get :
    (r.get word).testBit i = (decide (i < r.width) && word.testBit (r.low + i)) := by
  rw [get, Nat.testBit_mod_two_pow, Nat.testBit_shiftRight]

end Get

end BitRange

/-! ### Packing -/

/-- A number below `2 ^ w` has no bit from `w` on. -/
theorem lt_of_testBit {w x i : Nat} (hx : x < 2 ^ w) (hi : x.testBit i = true) : i < w :=
  (Nat.pow_lt_pow_iff_right (by decide)).mp
    (Nat.lt_of_le_of_lt (Nat.ge_two_pow_of_testBit hi) hx)

/-- A value put into a range is a one at this bit of the word. -/
def BitRange.Puts (r : BitRange) (x i : Nat) : Prop := r.low ≤ i ∧ x.testBit (i - r.low) = true

/-- A value that fits its range puts ones into it only. -/
theorem BitRange.Puts.holds {r : BitRange} {x i : Nat} (h : r.Puts x i) (hx : x < 2 ^ r.width) :
    r.Holds i := by
  obtain ⟨hle, hbit⟩ := h
  have hwidth := lt_of_testBit hx hbit
  exact ⟨hle, by omega⟩

section Pack

variable {ι : Type} {range : ι → BitRange} {value : ι → Nat} {fields : List ι} {n word i : Nat}
  {f : ι}

/-- Every field shifted to its range, or-ed together. -/
def pack (range : ι → BitRange) (value : ι → Nat) : List ι → Nat
  | [] => 0
  | f :: fields => value f <<< (range f).low ||| pack range value fields

theorem testBit_pack : (pack range value fields).testBit i = true ↔
    ∃ f ∈ fields, (range f).Puts (value f) i := by
  induction fields with
  | nil => simp [pack]
  | cons f fields ih => simp [pack, BitRange.Puts, Nat.testBit_or, Nat.testBit_shiftLeft, ih]

/-- **A value comes back exactly when no other field puts a one into its range** that
the value does not have there itself. -/
theorem get_pack_iff (hf : f ∈ fields) (hfits : value f < 2 ^ (range f).width) :
    (range f).get (pack range value fields) = value f ↔
      ∀ g ∈ fields, ∀ i, (range f).Holds i → (range g).Puts (value g) i →
        (range f).Puts (value f) i := by
  constructor
  · intro hget g hg i hi hputs
    have hbit : (pack range value fields).testBit i = true := testBit_pack.mpr ⟨g, hg, hputs⟩
    obtain ⟨hle, hlt⟩ := hi
    refine ⟨hle, ?_⟩
    rw [← hget, BitRange.testBit_get, Nat.add_sub_cancel' hle, hbit, Bool.and_true,
      decide_eq_true_eq]
    omega
  · intro hothers
    refine Nat.eq_of_testBit_eq fun i => Bool.eq_iff_iff.mpr ?_
    rw [BitRange.testBit_get, Bool.and_eq_true, decide_eq_true_eq, testBit_pack]
    constructor
    · rintro ⟨hi, g, hg, hputs⟩
      have hown := hothers g hg _ (BitRange.holds_add_iff.mpr hi) hputs
      simpa only [BitRange.Puts, Nat.add_sub_cancel_left, Nat.le_add_right, true_and] using hown
    · intro hbit
      refine ⟨lt_of_testBit hfits hbit, f, hf, Nat.le_add_right _ _, ?_⟩
      rwa [Nat.add_sub_cancel_left]

/-- **Ranges that cover a word keep the word.** -/
theorem pack_get (hcover : ∀ i < n, ∃ f ∈ fields, (range f).Holds i) (hword : word < 2 ^ n) :
    pack range (fun f => (range f).get word) fields = word := by
  refine Nat.eq_of_testBit_eq fun i => Bool.eq_iff_iff.mpr ?_
  simp only [testBit_pack, BitRange.Puts, BitRange.testBit_get, Bool.and_eq_true,
    decide_eq_true_eq]
  constructor
  · rintro ⟨f, _, hle, _, hbit⟩
    rwa [Nat.add_sub_cancel' hle] at hbit
  · intro hbit
    obtain ⟨f, hf, hle, hlt⟩ := hcover i (lt_of_testBit hword hbit)
    refine ⟨f, hf, hle, by omega, ?_⟩
    rwa [Nat.add_sub_cancel' hle]

/-- What is packed fits a word that all the ranges lie in. -/
theorem pack_lt (hwithin : ∀ f ∈ fields, (range f).low + (range f).width ≤ n)
    (hfits : ∀ f ∈ fields, value f < 2 ^ (range f).width) : pack range value fields < 2 ^ n := by
  refine Nat.lt_pow_two_of_testBit _ fun i hi => Bool.eq_false_iff.mpr fun hbit => ?_
  obtain ⟨f, hf, hputs⟩ := testBit_pack.mp hbit
  obtain ⟨_, hlt⟩ := hputs.holds (hfits f hf)
  have hend := hwithin f hf
  omega

end Pack

end FastDns.Lib
