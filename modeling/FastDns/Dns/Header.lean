/-
The header codec, by the bits of the flags word.

`FlagField` names the ten fields that `Header::from_bytes` and `Header::to_bytes` each
shift and mask on their own, with the bits of each. Both sides use these ranges, the
writer by packing (`Header.toNat_flags`), the reader by taking out (`header_eq_ok`).
The ranges leave no bit of the word out, so what was read is written back. They are not
disjoint: `z` has two bits, and the upper one is the bit of `ra`. A header therefore
comes back only when the two agree on it, and `header_eq_ok_iff` says which headers are
read from which bytes.
-/

import FastDns.Dns.Message
import FastDns.Lib.BitRange

namespace FastDns.Dns

open FastDns.Lib

/-! ### The fields of the flags word -/

inductive FlagField where
  | qr | opcode | aa | tc | rd | ra | z | ad | cd | rcode
deriving DecidableEq, Repr

namespace FlagField

def all : List FlagField := [.qr, .opcode, .aa, .tc, .rd, .ra, .z, .ad, .cd, .rcode]

/-- The bits of a field, counted from the low end of the word. The mask of `z` takes two
bits, where the layout drawn at `Header` has one, bit 6. -/
def range : FlagField → BitRange
  | .qr => ⟨15, 1⟩
  | .opcode => ⟨11, 4⟩
  | .aa => ⟨10, 1⟩
  | .tc => ⟨9, 1⟩
  | .rd => ⟨8, 1⟩
  | .ra => ⟨7, 1⟩
  | .z => ⟨6, 2⟩
  | .ad => ⟨5, 1⟩
  | .cd => ⟨4, 1⟩
  | .rcode => ⟨0, 4⟩

/-- The two fields that share bit 7. -/
def Shared (f g : FlagField) : Prop := f = .ra ∧ g = .z ∨ f = .z ∧ g = .ra

instance (f g : FlagField) : Decidable (Shared f g) := inferInstanceAs (Decidable (_ ∨ _))

theorem mem_all (f : FlagField) : f ∈ all := by cases f <;> decide

theorem range_le (f : FlagField) : f.range.low + f.range.width ≤ 16 := by cases f <;> decide

/-- The ranges leave no bit of the word out. -/
theorem covered : ∀ i < 16, ∃ f ∈ all, f.range.Holds i := by decide

/-- Apart from the bit of `ra` and `z`, no bit is in two ranges. -/
theorem disjoint_iff {f g : FlagField} (hne : f ≠ g) : f.range.Disjoint g.range ↔ ¬ Shared f g := by
  have htable : ∀ f ∈ all, ∀ g ∈ all, f ≠ g → ¬ Shared f g →
      f.range.low + f.range.width ≤ g.range.low ∨ g.range.low + g.range.width ≤ f.range.low := by
    decide
  constructor
  · rintro hdisjoint (⟨rfl, rfl⟩ | ⟨rfl, rfl⟩)
    · exact hdisjoint 7 (by decide) (by decide)
    · exact hdisjoint 7 (by decide) (by decide)
  · exact fun hshared => BitRange.disjoint_of_le (htable f f.mem_all g g.mem_all hne hshared)

end FlagField

namespace Header

/-- The value of a field. -/
def field (h : Header) : FlagField → Nat
  | .qr => h.qr.toNat
  | .opcode => h.opcode.toNat
  | .aa => h.aa.toNat
  | .tc => h.tc.toNat
  | .rd => h.rd.toNat
  | .ra => h.ra.toNat
  | .z => h.z.toNat
  | .ad => h.ad.toNat
  | .cd => h.cd.toNat
  | .rcode => h.rcode.toNat

/-- Every field fits the bits it has. -/
structure InRange (h : Header) : Prop where
  opcode : h.opcode.toNat < 16
  z : h.z.toNat < 4
  rcode : h.rcode.toNat < 16

variable {h : Header}

theorem inRange_iff : h.InRange ↔ ∀ f : FlagField, h.field f < 2 ^ f.range.width := by
  constructor
  · rintro ⟨hopcode, hz, hrcode⟩ f
    cases f with
    | opcode => exact hopcode
    | z => exact hz
    | rcode => exact hrcode
    | _ => exact Bool.toNat_lt _
  · exact fun hfits => ⟨hfits .opcode, hfits .z, hfits .rcode⟩

/-! ### Writing -/

theorem toNat_flag (b : Bool) : b.toUInt16.toNat = b.toNat := by cases b <;> rfl

/-- The flags word packs the fields; what leaves the word is lost. -/
theorem toNat_flags_eq (h : Header) :
    h.flags.toNat = pack FlagField.range h.field FlagField.all % 2 ^ 16 := by
  have hrcode : h.rcode.toNat % 2 ^ 16 = h.rcode.toNat :=
    Nat.mod_eq_of_lt (Nat.lt_trans h.rcode.toNat_lt (by decide))
  simp only [flags, UInt16.toNat_or, UInt16.toNat_shiftLeft, toNat_flag, UInt8.toNat_toUInt16,
    UInt16.reduceToNat, Nat.reduceMod, FlagField.all, pack, FlagField.range, field, Nat.or_zero,
    Nat.shiftLeft_zero, Nat.or_mod_two_pow, Nat.or_assoc, hrcode]

theorem InRange.toNat_flags (hrange : h.InRange) :
    h.flags.toNat = pack FlagField.range h.field FlagField.all := by
  rw [toNat_flags_eq]
  exact Nat.mod_eq_of_lt (pack_lt (fun f _ => f.range_le) fun f _ => inRange_iff.mp hrange f)

/-- The twelve bytes of a header. -/
def wire (h : Header) : Bytes :=
  u16ToBeBytes h.id ++ u16ToBeBytes h.flags ++ u16ToBeBytes h.qdcount ++ u16ToBeBytes h.ancount ++
    u16ToBeBytes h.nscount ++ u16ToBeBytes h.arcount

theorem length_wire (h : Header) : h.wire.length = 12 := rfl

theorem toBytes_eq (h : Header) {room : Nat} (hroom : 12 ≤ room) : h.toBytes room = .ok h.wire :=
  if_neg (Nat.not_lt_of_le hroom)

/-! ### Reading -/

variable {data : Bytes}

theorem toNat_read_flag (flags k : UInt16) (hk : k.toNat < 16) :
    (((flags >>> k) &&& 1) == 1).toNat = BitRange.get ⟨k.toNat, 1⟩ flags.toNat := by
  have hbit : ((flags >>> k) &&& 1).toNat = BitRange.get ⟨k.toNat, 1⟩ flags.toNat := by
    rw [UInt16.toNat_and, UInt16.toNat_shiftRight, Nat.mod_eq_of_lt hk]
    exact Nat.and_one_is_mod _
  have hlt : BitRange.get ⟨k.toNat, 1⟩ flags.toNat < 2 := BitRange.get_lt _ _
  rw [← hbit] at hlt ⊢
  rcases Nat.lt_succ_iff_lt_or_eq.mp hlt with hzero | hone
  · have hword : (flags >>> k) &&& 1 = 0 := UInt16.toNat_inj.mp (Nat.lt_one_iff.mp hzero)
    rw [hword]
    rfl
  · have hword : (flags >>> k) &&& 1 = 1 := UInt16.toNat_inj.mp hone
    rw [hword]
    rfl

theorem toNat_read_bits (flags k mask : UInt16) {w : Nat} (hk : k.toNat < 16) (hw : w ≤ 8)
    (hmask : mask.toNat = 2 ^ w - 1) :
    ((flags >>> k) &&& mask).toUInt8.toNat = BitRange.get ⟨k.toNat, w⟩ flags.toNat := by
  have hbits : ((flags >>> k) &&& mask).toNat = BitRange.get ⟨k.toNat, w⟩ flags.toNat := by
    rw [UInt16.toNat_and, UInt16.toNat_shiftRight, Nat.mod_eq_of_lt hk, hmask]
    exact Nat.and_two_pow_sub_one_eq_mod _ w
  have hlt : BitRange.get ⟨k.toNat, w⟩ flags.toNat < 2 ^ w := BitRange.get_lt _ _
  rw [UInt16.toNat_toUInt8, hbits]
  exact Nat.mod_eq_of_lt (Nat.lt_of_lt_of_le hlt (Nat.pow_le_pow_right (by decide) hw))

/-- What `Header::from_bytes` finds at the start of a message. -/
structure ReadFrom (data : Bytes) (h : Header) : Prop where
  long : 12 ≤ data.length
  id : h.id = u16At data 0
  fields : ∀ f : FlagField, h.field f = f.range.get (u16At data 2).toNat
  qdcount : h.qdcount = u16At data 4
  ancount : h.ancount = u16At data 6
  nscount : h.nscount = u16At data 8
  arcount : h.arcount = u16At data 10

/-- The header of a message is known from its words. -/
theorem ReadFrom.unique {h' : Header} (hread : h.ReadFrom data) (hread' : h'.ReadFrom data) :
    h = h' := by
  have hfield : ∀ f, h.field f = h'.field f := fun f => by rw [hread.fields, hread'.fields]
  have hflag : ∀ {a b : Bool}, a.toNat = b.toNat → a = b := fun {a b} => by
    cases a <;> cases b <;> simp
  obtain ⟨id, qr, opcode, aa, tc, rd, ra, z, ad, cd, rcode, qdcount, ancount, nscount, arcount⟩ := h
  obtain ⟨id', qr', opcode', aa', tc', rd', ra', z', ad', cd', rcode', qdcount', ancount',
    nscount', arcount'⟩ := h'
  rw [Header.mk.injEq]
  exact ⟨hread.id.trans hread'.id.symm, hflag (hfield .qr), UInt8.toNat_inj.mp (hfield .opcode),
    hflag (hfield .aa), hflag (hfield .tc), hflag (hfield .rd), hflag (hfield .ra),
    UInt8.toNat_inj.mp (hfield .z), hflag (hfield .ad), hflag (hfield .cd),
    UInt8.toNat_inj.mp (hfield .rcode), hread.qdcount.trans hread'.qdcount.symm,
    hread.ancount.trans hread'.ancount.symm, hread.nscount.trans hread'.nscount.symm,
    hread.arcount.trans hread'.arcount.symm⟩

end Header

/-- A header of twelve bytes is read. -/
theorem header_of_le {data : Bytes} (hlen : 12 ≤ data.length) :
    ∃ h, Header.fromBytes data = .ok h ∧ h.ReadFrom data := by
  unfold Header.fromBytes
  rw [if_neg (Nat.not_lt_of_le hlen), readU16_of_le (by omega), readU16_of_le (by omega),
    readU16_of_le (by omega), readU16_of_le (by omega), readU16_of_le (by omega),
    readU16_of_le (by omega)]
  refine ⟨_, rfl, hlen, rfl, fun f => ?_, rfl, rfl, rfl, rfl⟩
  cases f with
  | qr => exact Header.toNat_read_flag _ 15 (by decide)
  | opcode => exact Header.toNat_read_bits _ 11 0x0f (by decide) (by decide) rfl
  | aa => exact Header.toNat_read_flag _ 10 (by decide)
  | tc => exact Header.toNat_read_flag _ 9 (by decide)
  | rd => exact Header.toNat_read_flag _ 8 (by decide)
  | ra => exact Header.toNat_read_flag _ 7 (by decide)
  | z => exact Header.toNat_read_bits _ 6 0x03 (by decide) (by decide) rfl
  | ad => exact Header.toNat_read_flag _ 5 (by decide)
  | cd => exact Header.toNat_read_flag _ 4 (by decide)
  | rcode =>
      have hbits := Header.toNat_read_bits (u16At data 2) 0 0x0f (w := 4) (by decide) (by decide) rfl
      rwa [UInt16.shiftRight_zero] at hbits

/-- **The header reader**: the twelve bytes have to be there, and each field is taken
out of its range of the flags word. -/
theorem header_eq_ok {data : Bytes} {h : Header} :
    Header.fromBytes data = .ok h ↔ h.ReadFrom data := by
  constructor
  · intro hread
    by_cases hlen : 12 ≤ data.length
    · obtain ⟨h', hok, hfrom⟩ := header_of_le hlen
      rw [hread] at hok
      cases hok
      exact hfrom
    · rw [Header.fromBytes, if_pos (Nat.lt_of_not_le hlen)] at hread
      cases hread
  · intro hfrom
    obtain ⟨h', hok, hfrom'⟩ := header_of_le hfrom.long
    rwa [hfrom.unique hfrom']

/-! ### There and back -/

namespace Header

variable {h : Header} {data : Bytes}

/-- Only a field that shares a bit can spoil another. -/
theorem InRange.get_flags_iff (hrange : h.InRange) (f : FlagField) :
    f.range.get h.flags.toNat = h.field f ↔
      ∀ g, f.Shared g → ∀ i, f.range.Holds i → g.range.Puts (h.field g) i →
        f.range.Puts (h.field f) i := by
  have hfits := inRange_iff.mp hrange
  rw [hrange.toNat_flags, get_pack_iff f.mem_all (hfits f)]
  constructor
  · exact fun hothers g _ => hothers g g.mem_all
  · intro hshared g _ i hi hputs
    by_cases hfg : f = g
    · rwa [hfg]
    · by_cases hs : f.Shared g
      · exact hshared g hs i hi hputs
      · exact absurd (hputs.holds (hfits g)) ((FlagField.disjoint_iff hfg).mpr hs i hi)

theorem puts_ra_iff {i : Nat} :
    (FlagField.range .ra).Puts (h.field .ra) i ↔ i = 7 ∧ h.ra = true := by
  have hi : 7 ≤ i ∧ i - 7 = 0 ↔ i = 7 := by omega
  simp only [BitRange.Puts, FlagField.range, field, Nat.testBit_bool_toNat, Bool.and_eq_true,
    decide_eq_true_eq, ← and_assoc, hi]

theorem puts_z_iff (hz : h.z.toNat < 4) :
    (FlagField.range .z).Puts (h.field .z) 7 ↔ 2 ≤ h.z.toNat := by
  simp only [BitRange.Puts, FlagField.range, field, Nat.testBit_eq_decide_div_mod_eq,
    decide_eq_true_eq]
  omega

/-- Every field but `ra` and `z` comes back. -/
theorem InRange.get_flags (hrange : h.InRange) {f : FlagField} (hra : f ≠ .ra) (hz : f ≠ .z) :
    f.range.get h.flags.toNat = h.field f := by
  rw [hrange.get_flags_iff]
  rintro g (⟨hf, _⟩ | ⟨hf, _⟩)
  · exact absurd hf hra
  · exact absurd hf hz

theorem InRange.get_flags_ra (hrange : h.InRange) :
    (FlagField.range .ra).get h.flags.toNat = h.field .ra ↔ (2 ≤ h.z.toNat → h.ra = true) := by
  rw [hrange.get_flags_iff, ← puts_z_iff hrange.z]
  constructor
  · exact fun hothers hputs => (puts_ra_iff.mp
      (hothers .z (.inl ⟨rfl, rfl⟩) 7 (by decide) hputs)).2
  · rintro hbit g (⟨_, rfl⟩ | ⟨hra, _⟩) i hi hputs
    · obtain rfl : i = 7 := Nat.le_antisymm (Nat.le_of_lt_succ hi.2) hi.1
      exact puts_ra_iff.mpr ⟨rfl, hbit hputs⟩
    · cases hra

theorem InRange.get_flags_z (hrange : h.InRange) :
    (FlagField.range .z).get h.flags.toNat = h.field .z ↔ (h.ra = true → 2 ≤ h.z.toNat) := by
  rw [hrange.get_flags_iff]
  constructor
  · exact fun hothers hra => (puts_z_iff hrange.z).mp
      (hothers .ra (.inr ⟨rfl, rfl⟩) 7 (by decide) (puts_ra_iff.mpr ⟨rfl, hra⟩))
  · rintro hbit g (⟨hz, _⟩ | ⟨_, rfl⟩) i _ hputs
    · cases hz
    · obtain ⟨rfl, hra⟩ := puts_ra_iff.mp hputs
      exact (puts_z_iff hrange.z).mpr (hbit hra)

/-- The fields come back exactly when `ra` and the upper bit of `z` agree. -/
theorem InRange.fields_iff (hrange : h.InRange) :
    (∀ f : FlagField, h.field f = f.range.get h.flags.toNat) ↔ (h.ra = true ↔ 2 ≤ h.z.toNat) := by
  constructor
  · intro hfields
    exact ⟨hrange.get_flags_z.mp (hfields .z).symm, hrange.get_flags_ra.mp (hfields .ra).symm⟩
  · intro hagree f
    by_cases hra : f = .ra
    · rw [hra, hrange.get_flags_ra.mpr hagree.mpr]
    · by_cases hz : f = .z
      · rw [hz, hrange.get_flags_z.mpr hagree.mp]
      · rw [hrange.get_flags hra hz]

theorem ReadFrom.inRange (hread : h.ReadFrom data) : h.InRange :=
  inRange_iff.mpr fun f => hread.fields f ▸ BitRange.get_lt _ _

/-- A header that was read packs to the flags word it was read from. -/
theorem ReadFrom.flags_eq (hread : h.ReadFrom data) : h.flags = u16At data 2 := by
  apply UInt16.toNat_inj.mp
  rw [hread.inRange.toNat_flags, funext hread.fields]
  exact pack_get FlagField.covered (u16At data 2).toNat_lt

/-- The words of a header where its bytes stand. -/
theorem standsAt_wire_iff : StandsAt data 0 h.wire ↔ 12 ≤ data.length ∧ h.id = u16At data 0 ∧
    h.flags = u16At data 2 ∧ h.qdcount = u16At data 4 ∧ h.ancount = u16At data 6 ∧
    h.nscount = u16At data 8 ∧ h.arcount = u16At data 10 := by
  constructor
  · intro hat
    have hlen := hat.le (List.cons_ne_nil _ _)
    rw [length_wire] at hlen
    simp only [wire, standsAt_append, List.length_append, length_u16ToBeBytes, Nat.zero_add,
      Nat.reduceAdd] at hat
    obtain ⟨⟨⟨⟨⟨hid, hflags⟩, hqd⟩, han⟩, hns⟩, har⟩ := hat
    exact ⟨by omega, hid.u16At.symm, hflags.u16At.symm, hqd.u16At.symm, han.u16At.symm,
      hns.u16At.symm, har.u16At.symm⟩
  · rintro ⟨hlen, hid, hflags, hqd, han, hns, har⟩
    rw [wire, hid, hflags, hqd, han, hns, har]
    simp only [standsAt_append, List.length_append, length_u16ToBeBytes, Nat.zero_add,
      Nat.reduceAdd]
    exact ⟨⟨⟨⟨⟨standsAt_u16At (by omega), standsAt_u16At (by omega)⟩, standsAt_u16At (by omega)⟩,
      standsAt_u16At (by omega)⟩, standsAt_u16At (by omega)⟩, standsAt_u16At (by omega)⟩

end Header

/-- **Which header is read from a message**: its twelve bytes stand at the start, each
field fits, and `ra` is the upper bit of `z`. -/
theorem header_eq_ok_iff {data : Bytes} {h : Header} : Header.fromBytes data = .ok h ↔
    h.InRange ∧ (h.ra = true ↔ 2 ≤ h.z.toNat) ∧ StandsAt data 0 h.wire := by
  rw [header_eq_ok, Header.standsAt_wire_iff]
  constructor
  · intro hread
    have hfields := hread.fields
    rw [← hread.flags_eq] at hfields
    exact ⟨hread.inRange, hread.inRange.fields_iff.mp hfields, hread.long, hread.id,
      hread.flags_eq, hread.qdcount, hread.ancount, hread.nscount, hread.arcount⟩
  · rintro ⟨hrange, hagree, hlen, hid, hflags, hqd, han, hns, har⟩
    have hfields := hrange.fields_iff.mpr hagree
    rw [hflags] at hfields
    exact ⟨hlen, hid, hfields, hqd, han, hns, har⟩

/-! ### What comes back -/

/-- The header read in the place of one that was written: the bit `ra` and `z` share is
set when either of them has it. -/
def Header.readBack (h : Header) : Header := { h with
  ra := h.ra || decide (2 ≤ h.z.toNat)
  z := if h.ra ∧ h.z.toNat < 2 then h.z + 2 else h.z }

/-- The two fields put the same ones before and after. -/
theorem shared_bit (ra : Bool) {z : UInt8} (hz : z.toNat < 4) :
    (ra || decide (2 ≤ z.toNat)).toUInt16 <<< 7 |||
      (if ra ∧ z.toNat < 2 then z + 2 else z).toUInt16 <<< 6 =
    ra.toUInt16 <<< 7 ||| z.toUInt16 <<< 6 := by
  have hcases : z = 0 ∨ z = 1 ∨ z = 2 ∨ z = 3 := by
    simp only [← UInt8.toNat_inj, UInt8.reduceToNat]
    omega
  rcases hcases with rfl | rfl | rfl | rfl <;> cases ra <;> rfl

namespace Header

variable {h : Header}

theorem flags_readBack (hz : h.z.toNat < 4) : h.readBack.flags = h.flags := by
  have hshared := shared_bit h.ra hz
  rw [flags, flags, UInt16.or_assoc _ (h.readBack.ra.toUInt16 <<< 7),
    UInt16.or_assoc _ (h.ra.toUInt16 <<< 7), ← hshared]
  rfl

/-- **What comes back is `readBack`**, for every header whose fields fit. -/
theorem InRange.fromBytes_eq {data : Bytes} (hrange : h.InRange) (hat : StandsAt data 0 h.wire) :
    Header.fromBytes data = .ok h.readBack := by
  have hwire : h.readBack.wire = h.wire := by
    rw [wire, flags_readBack hrange.z]
    rfl
  have hz := hrange.z
  have htwo : h.z.toNat < 2 → (h.z + 2).toNat = h.z.toNat + 2 := fun hlt => by
    rw [UInt8.toNat_add]
    exact Nat.mod_eq_of_lt (Nat.lt_trans (Nat.add_lt_add_right hlt 2) (by decide))
  refine header_eq_ok_iff.mpr ⟨⟨hrange.opcode, ?_, hrange.rcode⟩, ?_, hwire ▸ hat⟩
  · unfold readBack
    split
    · rename_i hset
      rw [htwo hset.2]
      omega
    · exact hz
  · simp only [readBack, Bool.or_eq_true, decide_eq_true_eq]
    split
    · rename_i hset
      rw [htwo hset.2]
      exact iff_of_true (.inl hset.1) (by omega)
    · rename_i hset
      constructor
      · rintro (hra | hle)
        · by_contra hlt
          exact hset ⟨hra, Nat.lt_of_not_le hlt⟩
        · exact hle
      · exact .inr

end Header

/-! ### The whole codec -/

/-- **Where the header codec is exact.** A header in range comes back exactly when `ra` is
the upper bit of `z`; twelve bytes are always written back as they were. For the ranges
that writer and reader use: those of `ra` and `z` are the only ones that overlap, and
together they make up the flags word. -/
theorem header_codec_exact (h : Header) (bytes : Bytes) (room : Nat) :
    (h.InRange → 12 ≤ room →
      ((∃ written, h.toBytes room = .ok written ∧ written.length = 12 ∧
        Header.fromBytes written = .ok h) ↔ (h.ra = true ↔ 2 ≤ h.z.toNat))) ∧
    (bytes.length = 12 → 12 ≤ room → ∃ h', Header.fromBytes bytes = .ok h' ∧ h'.InRange ∧
      h'.toBytes room = .ok bytes) ∧
    (h.InRange → h.flags.toNat = pack FlagField.range h.field FlagField.all) ∧
    (Header.fromBytes bytes = .ok h →
      ∀ f : FlagField, h.field f = f.range.get (u16At bytes 2).toNat) ∧
    (∀ f g : FlagField, f ≠ g → (f.range.Disjoint g.range ↔ ¬ f.Shared g)) ∧
    ∀ i, i < 16 ↔ ∃ f : FlagField, f.range.Holds i := by
  refine ⟨fun hrange hroom => ?_, fun hlen hroom => ?_, Header.InRange.toNat_flags,
    fun hread => (header_eq_ok.mp hread).fields, fun f g => FlagField.disjoint_iff, fun i => ?_⟩
  · rw [h.toBytes_eq hroom]
    constructor
    · rintro ⟨written, hok, _, hread⟩
      cases hok
      exact (header_eq_ok_iff.mp hread).2.1
    · exact fun hagree =>
        ⟨_, rfl, h.length_wire, header_eq_ok_iff.mpr ⟨hrange, hagree, standsAt_self _⟩⟩
  · obtain ⟨h', hread, _⟩ := header_of_le (Nat.le_of_eq hlen.symm)
    obtain ⟨hrange, _, hat⟩ := header_eq_ok_iff.mp hread
    have hwire : h'.wire = bytes := List.IsPrefix.eq_of_length hat (h'.length_wire.trans hlen.symm)
    exact ⟨h', hread, hrange, hwire ▸ h'.toBytes_eq hroom⟩
  · constructor
    · intro hi
      obtain ⟨f, _, hf⟩ := FlagField.covered i hi
      exact ⟨f, hf⟩
    · rintro ⟨f, _, hlt⟩
      exact Nat.lt_of_lt_of_le hlt f.range_le

/-- The header of a response does not come back: `ra` is set, and is read as `z` too. -/
theorem response_header_not_read_back : (Header.newResponse 7 0).InRange ∧
    ∃ bytes, (Header.newResponse 7 0).toBytes 12 = .ok bytes ∧ bytes.length = 12 ∧
      Header.fromBytes bytes = .ok { Header.newResponse 7 0 with z := 2 } ∧
      Header.fromBytes bytes ≠ .ok (Header.newResponse 7 0) := by
  have hrange : (Header.newResponse 7 0).InRange := ⟨by decide, by decide, by decide⟩
  have hread := hrange.fromBytes_eq (standsAt_self _)
  refine ⟨hrange, _, Header.toBytes_eq _ (Nat.le_refl _), rfl, hread, ?_⟩
  rw [hread]
  exact fun hsame => absurd (congrArg Header.z (Outcome.ok.inj hsame)) (by decide)

end FastDns.Dns
