/-
The grammar of compressed names, in two independent parts.

`NameAt` (`Dns/Decode.lean`) follows the decoder: one relation for the name and
for the place where the bytes after it start. Here the two are taken apart.
`CompressedName` says which name the bytes at a position spell, and
`ResumesAt` says, from the bytes of the message alone, where reading goes on:
after the labels that stand in place comes the root label or the first pointer.

* **`decodeDomainName_accepts_grammar`.** The decoder returns exactly the names
  of the grammar with exactly that position, and what it returns is an
  uncompressed name whose only empty label is the last one.
-/

import FastDns.Dns.RdataLayout

namespace FastDns.Dns

open FastDns.Lib

/-! ### The name and the position after it -/

/-- `CompressedName data offset p n`: the bytes at `p` spell the name `n`, all
pointers on the way leading before `offset`. -/
inductive CompressedName (data : Bytes) (offset : Nat) : Nat → Bytes → Prop where
  | root {p : Nat} : data[p]? = some 0 → CompressedName data offset p [0]
  | label {p : Nat} {len : UInt8} {n : Bytes} :
      data[p]? = some len → 1 ≤ len.toNat → len.toNat ≤ 63 → p + 1 + len.toNat ≤ data.length →
      CompressedName data offset (p + 1 + len.toNat) n →
      CompressedName data offset p (len :: (data.drop (p + 1)).take len.toNat ++ n)
  | pointer {p : Nat} {byte low : UInt8} {n : Bytes} :
      data[p]? = some byte → byte &&& 0xc0 = 0xc0 → data[p + 1]? = some low →
      pointerTarget byte low < offset → CompressedName data offset (pointerTarget byte low) n →
      CompressedName data offset p n

/-- The bytes from `p` up to `q` are labels, one after the other. -/
inductive LabelsInPlace (data : Bytes) : Nat → Nat → Prop where
  | here {p : Nat} : LabelsInPlace data p p
  | label {p q : Nat} {len : UInt8} :
      data[p]? = some len → 1 ≤ len.toNat → len.toNat ≤ 63 → p + 1 + len.toNat ≤ data.length →
      LabelsInPlace data (p + 1 + len.toNat) q → LabelsInPlace data p q

/-- `next` is one past the root label that ends the labels at `p`, or two past
the first byte of the pointer that does. -/
def ResumesAt (data : Bytes) (p next : Nat) : Prop :=
  ∃ q, LabelsInPlace data p q ∧
    ((data[q]? = some 0 ∧ next = q + 1) ∨
      ∃ byte, data[q]? = some byte ∧ byte &&& 0xc0 = 0xc0 ∧ next = q + 2)

section Parts

variable {data : Bytes} {offset p next : Nat} {n : Bytes}

theorem ne_zero_iff_one_le {byte : UInt8} : byte ≠ 0 ↔ 1 ≤ byte.toNat := by
  rw [Nat.one_le_iff_ne_zero, ne_eq, ne_eq, ← UInt8.toNat_inj]
  rfl

theorem resumesAt_root (hbyte : data[p]? = some 0) : ResumesAt data p next ↔ next = p + 1 := by
  constructor
  · rintro ⟨q, hlabels, hend⟩
    cases hlabels with
    | here =>
        rcases hend with ⟨_, hnext⟩ | ⟨byte, hbyte', hptr, _⟩
        · exact hnext
        · rw [hbyte, Option.some.injEq] at hbyte'
          exact absurd hbyte'.symm (ne_zero_of_and_c0 hptr)
    | label hlen hpos _ _ _ =>
        rw [hbyte, Option.some.injEq] at hlen
        exact absurd hlen.symm (ne_zero_iff_one_le.mpr hpos)
  · rintro rfl
    exact ⟨p, .here, .inl ⟨hbyte, rfl⟩⟩

theorem resumesAt_pointer {byte : UInt8} (hbyte : data[p]? = some byte)
    (hptr : byte &&& 0xc0 = 0xc0) : ResumesAt data p next ↔ next = p + 2 := by
  constructor
  · rintro ⟨q, hlabels, hend⟩
    cases hlabels with
    | here =>
        rcases hend with ⟨hzero, _⟩ | ⟨_, _, _, hnext⟩
        · rw [hbyte, Option.some.injEq] at hzero
          exact absurd hzero (ne_zero_of_and_c0 hptr)
        · exact hnext
    | label hlen _ hle _ _ =>
        rw [hbyte, Option.some.injEq] at hlen
        exact absurd (hlen ▸ hptr) (and_c0_ne_of_le hle)
  · rintro rfl
    exact ⟨p, .here, .inr ⟨byte, hbyte, hptr, rfl⟩⟩

theorem resumesAt_label {len : UInt8} (hbyte : data[p]? = some len) (hpos : 1 ≤ len.toNat)
    (hle : len.toNat ≤ 63) (hfit : p + 1 + len.toNat ≤ data.length) :
    ResumesAt data p next ↔ ResumesAt data (p + 1 + len.toNat) next := by
  constructor
  · rintro ⟨q, hlabels, hend⟩
    cases hlabels with
    | here =>
        rcases hend with ⟨hzero, _⟩ | ⟨byte, hbyte', hptr, _⟩
        · rw [hbyte, Option.some.injEq] at hzero
          exact absurd hzero (ne_zero_iff_one_le.mpr hpos)
        · rw [hbyte, Option.some.injEq] at hbyte'
          exact absurd (hbyte' ▸ hptr) (and_c0_ne_of_le hle)
    | label hlen _ _ _ hrest =>
        rw [hbyte, Option.some.injEq] at hlen
        subst hlen
        exact ⟨q, hrest, hend⟩
  · rintro ⟨q, hlabels, hend⟩
    exact ⟨q, .label hbyte hpos hle hfit hlabels, hend⟩

theorem NameAt.compressedName (h : NameAt data offset p n next) :
    CompressedName data offset p n := by
  induction h with
  | root hbyte => exact .root hbyte
  | label hbyte hzero hle hfit _ ih =>
      exact .label hbyte (ne_zero_iff_one_le.mp hzero) hle hfit ih
  | pointer hbyte hptr hlow hback _ ih => exact .pointer hbyte hptr hlow hback ih

theorem CompressedName.nameAt (h : CompressedName data offset p n) :
    ∃ next, NameAt data offset p n next := by
  induction h with
  | @root p hbyte => exact ⟨p + 1, .root hbyte⟩
  | label hbyte hpos hle hfit _ ih =>
      obtain ⟨next, hname⟩ := ih
      exact ⟨next, .label hbyte (ne_zero_iff_one_le.mpr hpos) hle hfit hname⟩
  | @pointer p _ _ _ hbyte hptr hlow hback _ ih =>
      obtain ⟨next, hname⟩ := ih
      exact ⟨p + 2, .pointer hbyte hptr hlow hback hname⟩

/-- Where a name of the grammar ends is where reading goes on, and nowhere else. -/
theorem NameAt.resumesAt_iff {next' : Nat} (h : NameAt data offset p n next) :
    ResumesAt data p next' ↔ next' = next := by
  induction h with
  | root hbyte => exact resumesAt_root hbyte
  | label hbyte hzero hle hfit _ ih =>
      exact (resumesAt_label hbyte (ne_zero_iff_one_le.mp hzero) hle hfit).trans ih
  | pointer hbyte hptr _ _ _ _ => exact resumesAt_pointer hbyte hptr

/-- The decoder's relation is the conjunction of the two parts. -/
theorem nameAt_iff :
    NameAt data offset p n next ↔ CompressedName data offset p n ∧ ResumesAt data p next := by
  constructor
  · exact fun h => ⟨h.compressedName, h.resumesAt_iff.mpr rfl⟩
  · rintro ⟨hname, hnext⟩
    obtain ⟨next', h⟩ := hname.nameAt
    rw [h.resumesAt_iff.mp hnext]
    exact h

end Parts

/-- **The decoder accepts exactly the grammar**: it returns `(n, next)` if and
only if the bytes at `offset` spell `n` and reading goes on at `next`. Such an
`n` is an uncompressed name, and its bytes start at `offset` and lie inside the
message. -/
theorem decodeDomainName_accepts_grammar (data : Bytes) (offset : Nat) (n : Bytes) (next : Nat) :
    (decodeDomainName data offset = .ok (n, next) ↔
      CompressedName data offset offset n ∧ ResumesAt data offset next) ∧
    (decodeDomainName data offset = .ok (n, next) →
      WireName n ∧ offset < next ∧ next ≤ data.length) := by
  refine ⟨decodeDomainName_eq_ok.trans nameAt_iff, fun h => ?_⟩
  have hname := decodeDomainName_eq_ok.mp h
  exact ⟨hname.wireName, hname.bounds⟩

end FastDns.Dns
