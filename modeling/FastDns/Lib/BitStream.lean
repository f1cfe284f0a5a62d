/-
Digits of one width regrouped into digits of another, through their bits.

* `bitsOf w n` are the low `w` bits of `n`, the highest first; `stream w ds` are the
  bits of digits of width `w`.
* `group w bits` cuts bits into digits of width `w` and fills the last one with zeros
  (`stream_group`).
* `Regroup.push a b` is one round of a streaming regrouper from width `a` to width `b`:
  an accumulator takes a digit in at its low end and gives one off at its high end. Its
  invariant (`Regroup.Follows`) says that what it gave off and what it holds are the bits
  it took in, so it inverts `group` (`Regroup.Follows.out_eq`).
-/

import Mathlib.Algebra.Group.Nat.Defs
import Mathlib.Data.List.Induction
import Mathlib.Tactic.Common

namespace FastDns.Lib

/-! ### Bits of a number -/

/-- The low `w` bits of a number, the highest first. -/
def bitsOf : Nat → Nat → List Bool
  | 0, _ => []
  | w + 1, n => n.testBit w :: bitsOf w n

/-- The number with these bits. -/
def ofBits (bits : List Bool) : Nat := bits.foldl (fun n b => 2 * n + b.toNat) 0

section Bits

variable {w m n a b : Nat} {bits : List Bool}

@[simp] theorem length_bitsOf (w n : Nat) : (bitsOf w n).length = w := by
  induction w with
  | zero => rfl
  | succ w ih => rw [bitsOf, List.length_cons, ih]

theorem bitsOf_eq_iff : bitsOf w a = bitsOf w b ↔ ∀ i < w, a.testBit i = b.testBit i := by
  induction w with
  | zero => exact iff_of_true rfl fun i hi => absurd hi (Nat.not_lt_zero i)
  | succ w ih =>
      rw [bitsOf, bitsOf, List.cons.injEq, ih]
      constructor
      · rintro ⟨htop, hrest⟩ i hi
        rcases Nat.lt_succ_iff_lt_or_eq.mp hi with hlt | rfl
        · exact hrest i hlt
        · exact htop
      · exact fun h => ⟨h w (Nat.lt_succ_self w), fun i hi => h i (Nat.lt_succ_of_lt hi)⟩

/-- The bits of a number below `2 ^ w` are enough to know it. -/
theorem eq_of_bitsOf_eq (ha : a < 2 ^ w) (hb : b < 2 ^ w) (h : bitsOf w a = bitsOf w b) :
    a = b := by
  refine Nat.eq_of_testBit_eq fun i => ?_
  by_cases hi : i < w
  · exact bitsOf_eq_iff.mp h i hi
  · have hpow : 2 ^ w ≤ 2 ^ i := Nat.pow_le_pow_right (by decide) (Nat.le_of_not_lt hi)
    rw [Nat.testBit_lt_two_pow (Nat.lt_of_lt_of_le ha hpow),
      Nat.testBit_lt_two_pow (Nat.lt_of_lt_of_le hb hpow)]

/-- A number put together from two has the bits of both. -/
theorem bitsOf_add (m : Nat) (a : Nat) (hb : b < 2 ^ n) :
    bitsOf (m + n) (2 ^ n * a + b) = bitsOf m a ++ bitsOf n b := by
  induction m with
  | zero =>
      rw [Nat.zero_add, bitsOf, List.nil_append, bitsOf_eq_iff]
      intro i hi
      rw [Nat.testBit_two_pow_mul_add a hb, if_pos hi]
  | succ m ih =>
      rw [Nat.succ_add, bitsOf, bitsOf, List.cons_append, ih, Nat.testBit_two_pow_mul_add a hb,
        if_neg (by omega), Nat.add_sub_cancel]

/-- The high and the low bits of a number. -/
theorem bitsOf_split (m n a : Nat) :
    bitsOf (m + n) a = bitsOf m (a / 2 ^ n) ++ bitsOf n (a % 2 ^ n) := by
  have hmod : a % 2 ^ n < 2 ^ n := Nat.mod_lt _ (Nat.two_pow_pos n)
  rw [← bitsOf_add m (a / 2 ^ n) hmod, Nat.div_add_mod]

theorem ofBits_concat (bits : List Bool) (b : Bool) :
    ofBits (bits ++ [b]) = 2 * ofBits bits + b.toNat := by
  rw [ofBits, List.foldl_append]
  rfl

theorem ofBits_lt (bits : List Bool) : ofBits bits < 2 ^ bits.length := by
  induction bits using List.reverseRecOn with
  | nil => decide
  | append_singleton bits b ih =>
      have hb : b.toNat ≤ 1 := Bool.toNat_le b
      rw [ofBits_concat, List.length_append, List.length_singleton, Nat.pow_succ]
      omega

theorem bitsOf_ofBits (bits : List Bool) : bitsOf bits.length (ofBits bits) = bits := by
  induction bits using List.reverseRecOn with
  | nil => rfl
  | append_singleton bits b ih =>
      have hb : b.toNat < 2 ^ 1 := Nat.lt_succ_of_le (Bool.toNat_le b)
      rw [ofBits_concat, List.length_append, List.length_singleton]
      have hadd := bitsOf_add bits.length (ofBits bits) hb
      rw [Nat.pow_one] at hadd
      rw [hadd, ih]
      cases b <;> rfl

end Bits

/-! ### Bits of digits -/

/-- The bits of digits of one width. -/
def stream (w : Nat) (ds : List Nat) : List Bool := ds.flatMap (bitsOf w)

/-- Bits filled up with zeros to a width. -/
def fill (w : Nat) (bits : List Bool) : List Bool := bits ++ List.replicate (w - bits.length) false

def groupLoop (w : Nat) : Nat → List Bool → List Nat
  | 0, _ => []
  | fuel + 1, bits =>
      if bits = [] then []
      else ofBits (fill w (bits.take w)) :: groupLoop w fuel (bits.drop w)

/-- Bits cut into digits of one width, the last filled up with zeros. -/
def group (w : Nat) (bits : List Bool) : List Nat := groupLoop w bits.length bits

section Digits

variable {w d : Nat} {ds es : List Nat} {bits r s : List Bool}

theorem stream_cons (w d : Nat) (ds : List Nat) : stream w (d :: ds) = bitsOf w d ++ stream w ds :=
  List.flatMap_cons

theorem stream_append (w : Nat) (ds es : List Nat) :
    stream w (ds ++ es) = stream w ds ++ stream w es :=
  List.flatMap_append

theorem stream_singleton (w d : Nat) : stream w [d] = bitsOf w d := by
  rw [stream_cons]
  exact List.append_nil _

theorem length_stream (w : Nat) (ds : List Nat) : (stream w ds).length = w * ds.length := by
  induction ds with
  | nil => rfl
  | cons d ds ih =>
      rw [stream_cons, List.length_append, length_bitsOf, ih, List.length_cons, Nat.mul_succ,
        Nat.add_comm]

/-- Digits can be read off their bits. -/
theorem eq_of_stream_eq (hds : ∀ d ∈ ds, d < 2 ^ w) (hes : ∀ e ∈ es, e < 2 ^ w)
    (hlength : ds.length = es.length) (h : stream w ds ++ r = stream w es ++ s) : ds = es := by
  induction ds generalizing es with
  | nil => exact (List.length_eq_zero_iff.mp hlength.symm).symm
  | cons d ds ih =>
      cases es with
      | nil => cases hlength
      | cons e es =>
          obtain ⟨hd, hds⟩ := List.forall_mem_cons.mp hds
          obtain ⟨he, hes⟩ := List.forall_mem_cons.mp hes
          rw [stream_cons, stream_cons, List.append_assoc, List.append_assoc] at h
          obtain ⟨hhead, hrest⟩ := List.append_inj h (by rw [length_bitsOf, length_bitsOf])
          rw [eq_of_bitsOf_eq hd he hhead, ih hds hes (Nat.succ.inj hlength) hrest]

theorem length_fill_take (hbits : bits.length ≤ w) : (fill w bits).length = w := by
  rw [fill, List.length_append, List.length_replicate]
  omega

theorem groupLoop_nil (w fuel : Nat) : groupLoop w fuel [] = [] := by
  cases fuel <;> rfl

theorem groupLoop_spec (hw : 0 < w) {fuel : Nat} (hfuel : bits.length ≤ fuel) :
    (∃ k < w, stream w (groupLoop w fuel bits) = bits ++ List.replicate k false) ∧
      ∀ d ∈ groupLoop w fuel bits, d < 2 ^ w := by
  induction fuel generalizing bits with
  | zero =>
      rw [List.length_eq_zero_iff.mp (Nat.le_zero.mp hfuel)]
      exact ⟨⟨0, hw, rfl⟩, nofun⟩
  | succ fuel ih =>
      rw [groupLoop]
      split
      · rename_i hnil
        rw [hnil]
        exact ⟨⟨0, hw, rfl⟩, nofun⟩
      rename_i hne
      have hpos := List.length_pos_iff.mpr hne
      have hfill := length_fill_take (List.length_take_le w bits)
      have hdigit := ofBits_lt (fill w (bits.take w))
      have hdigitBits := bitsOf_ofBits (fill w (bits.take w))
      rw [hfill] at hdigit hdigitBits
      obtain ⟨⟨k, hk, hstream⟩, hrest⟩ :=
        ih (show (bits.drop w).length ≤ fuel by rw [List.length_drop]; omega)
      refine ⟨?_, List.forall_mem_cons.mpr ⟨hdigit, hrest⟩⟩
      rw [stream_cons, hdigitBits, fill]
      by_cases hfull : w ≤ bits.length
      · -- A full digit: the zeros are those of the rest.
        have hnone : w - (bits.take w).length = 0 := by
          rw [List.length_take]
          omega
        refine ⟨k, hk, ?_⟩
        rw [hstream, hnone, List.replicate_zero, List.append_nil, ← List.append_assoc,
          List.take_append_drop]
      · -- The last digit, with the zeros behind it.
        have hshort : bits.length ≤ w := Nat.le_of_not_le hfull
        refine ⟨w - bits.length, by omega, ?_⟩
        rw [List.drop_eq_nil_of_le hshort, groupLoop_nil, List.take_of_length_le hshort]
        exact List.append_nil _

/-- Grouping keeps the bits and adds fewer zeros than a digit has. -/
theorem stream_group (hw : 0 < w) (bits : List Bool) :
    ∃ k < w, stream w (group w bits) = bits ++ List.replicate k false :=
  (groupLoop_spec hw (Nat.le_refl _)).1

theorem lt_of_mem_group (hw : 0 < w) (hd : d ∈ group w bits) : d < 2 ^ w :=
  (groupLoop_spec hw (Nat.le_refl _)).2 d hd

end Digits

/-! ### Regrouping with an accumulator -/

/-- What a streaming regrouper holds: bits it has not given off yet, how many, and the
digits it gave off. -/
structure Regroup where
  acc : Nat
  count : Nat
  out : List Nat
deriving DecidableEq, Repr

namespace Regroup

/-- Nothing taken in. -/
def empty : Regroup := ⟨0, 0, []⟩

/-- The accumulator after a digit of width `a` came in. -/
def shifted (a : Nat) (s : Regroup) (v : Nat) : Nat := 2 ^ a * s.acc + v

/-- One round: a digit of width `a` comes in, and one of width `b` goes off if there
are enough bits for it. -/
def push (a b : Nat) (s : Regroup) (v : Nat) : Regroup :=
  if b ≤ s.count + a then
    { acc := s.shifted a v % 2 ^ (s.count + a - b)
      count := s.count + a - b
      out := s.out ++ [s.shifted a v / 2 ^ (s.count + a - b)] }
  else { s with acc := s.shifted a v, count := s.count + a }

/-- After the digits `vs`: what was given off and what is held are their bits, and
less than a digit is held. -/
structure Follows (a b : Nat) (vs : List Nat) (s : Regroup) : Prop where
  bits : stream b s.out ++ bitsOf s.count s.acc = stream a vs
  short : s.count < b
  small : s.acc < 2 ^ s.count
  digits : ∀ d ∈ s.out, d < 2 ^ b

section Follows

variable {a b v : Nat} {vs ds : List Nat} {s : Regroup}

theorem follows_empty (hb : 0 < b) : Follows a b [] empty := ⟨rfl, hb, Nat.one_pos, nofun⟩

/-- What the accumulator holds right after a digit came in. -/
theorem Follows.shifted_lt (h : Follows a b vs s) (hv : v < 2 ^ a) :
    s.shifted a v < 2 ^ (s.count + a) := by
  have hacc : 2 ^ a * (s.acc + 1) ≤ 2 ^ a * 2 ^ s.count := Nat.mul_le_mul_left _ h.small
  rw [Nat.mul_succ] at hacc
  rw [shifted, Nat.add_comm s.count, Nat.pow_add]
  omega

/-- **Each round keeps the invariant.** -/
theorem Follows.push (h : Follows a b vs s) (hab : a ≤ b) (hv : v < 2 ^ a) :
    Follows a b (vs ++ [v]) (s.push a b v) := by
  have hshifted := h.shifted_lt hv
  have hbits : stream b s.out ++ bitsOf (s.count + a) (s.shifted a v) = stream a (vs ++ [v]) := by
    rw [shifted, bitsOf_add s.count s.acc hv, stream_append, stream_singleton, ← h.bits,
      List.append_assoc]
  unfold Regroup.push
  split
  · rename_i henough
    obtain ⟨rest, hrest⟩ := Nat.exists_eq_add_of_le henough
    have hsub : s.count + a - b = rest := by omega
    rw [hsub]
    rw [hrest] at hshifted hbits
    have hshort : rest < b := by
      have hbefore := h.short
      omega
    refine ⟨?_, hshort, Nat.mod_lt _ (Nat.two_pow_pos _), ?_⟩
    · rw [stream_append, stream_singleton, List.append_assoc, ← bitsOf_split, hbits]
    · refine List.forall_mem_append.mpr ⟨h.digits, List.forall_mem_singleton.mpr ?_⟩
      rw [Nat.div_lt_iff_lt_mul (Nat.two_pow_pos _), ← Nat.pow_add]
      exact hshifted
  · rename_i hfew
    exact ⟨hbits, Nat.lt_of_not_le hfew, hshifted, h.digits⟩

/-- As many digits go off as the bits that came in make whole. -/
theorem Follows.length_out (h : Follows a b vs s) : s.out.length = a * vs.length / b := by
  have hlength := congrArg List.length h.bits
  rw [List.length_append, length_stream, length_stream, length_bitsOf] at hlength
  rw [← hlength, Nat.mul_add_div (Nat.zero_lt_of_lt h.short), Nat.div_eq_of_lt h.short,
    Nat.add_zero]

/-- **A regrouper inverts grouping**: from the bits of digits with fewer zeros behind
than a digit has, the digits are given off again. -/
theorem Follows.out_eq (h : Follows a b vs s) (hds : ∀ d ∈ ds, d < 2 ^ b) {k : Nat} (hk : k < b)
    (hvs : stream a vs = stream b ds ++ List.replicate k false) : s.out = ds := by
  have hbits := h.bits.trans hvs
  have hlength := congrArg List.length hbits
  have hshort := h.short
  rw [List.length_append, List.length_append, length_stream, length_stream, length_bitsOf,
    List.length_replicate] at hlength
  have hcount : s.out.length = ds.length := by
    have hleft : (b * s.out.length + s.count) / b = s.out.length := by
      rw [Nat.mul_add_div (Nat.zero_lt_of_lt hshort), Nat.div_eq_of_lt hshort, Nat.add_zero]
    have hright : (b * ds.length + k) / b = ds.length := by
      rw [Nat.mul_add_div (Nat.zero_lt_of_lt hk), Nat.div_eq_of_lt hk, Nat.add_zero]
    rw [← hleft, hlength, hright]
  exact eq_of_stream_eq h.digits hds hcount hbits

end Follows

end Regroup

end FastDns.Lib
