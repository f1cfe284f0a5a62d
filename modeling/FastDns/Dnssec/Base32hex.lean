/-
Owner hashes of NSEC3 records: `base32hex_decode` and `nsec3_owner_hash`
(`src/dnssec/mod.rs`).

The decoder is a streaming regrouper from five bits to eight (`Decoder.follows_push`), so
it gives back the bytes whose bits were cut into fives (`base32hexEncode`), and one byte
for every eight bits of any text in the alphabet.
-/

import FastDns.Lib.BitStream
import FastDns.Lib.Text

namespace FastDns.Dnssec

open FastDns.Lib

/-! ### The decoder -/

/-- The table of `base32hex_decode`: `0`-`9`, `A`-`V`, `a`-`v`. -/
def base32hexLut (ch : UInt8) : UInt8 :=
  if 48 ≤ ch ∧ ch ≤ 57 then ch - 48
  else if 65 ≤ ch ∧ ch ≤ 86 then ch - 55
  else if 97 ≤ ch ∧ ch ≤ 118 then ch - 87
  else 0xFF

/-- The variables of the loop. -/
structure Decoder where
  bits : UInt64
  bitCount : UInt8
  output : Bytes
deriving DecidableEq, Repr

namespace Decoder

def start : Decoder := ⟨0, 0, []⟩

/-- The accumulator with five more bits. -/
def accumulate (s : Decoder) (val : UInt8) : UInt64 := (s.bits <<< 5) ||| val.toUInt64

/-- The rest of a round. -/
def push (s : Decoder) (val : UInt8) : Decoder :=
  let bits := s.accumulate val
  let bitCount := s.bitCount + 5
  if 8 ≤ bitCount then
    let bitCount := bitCount - 8
    { bits := bits &&& ((1 <<< bitCount.toUInt64) - 1)
      bitCount
      output := s.output ++ [(bits >>> bitCount.toUInt64).toUInt8] }
  else { s with bits, bitCount }

end Decoder

/-- The loop of `base32hex_decode`. -/
def base32hexLoop : Bytes → Decoder → Option Decoder
  | [], s => some s
  | ch :: rest, s =>
      if ch = 61 then some s
      else if 128 ≤ ch then none
      else if base32hexLut ch = 0xFF then none
      else base32hexLoop rest (s.push (base32hexLut ch))

/-- `base32hex_decode` -/
def base32hexDecode (input : Bytes) : Option Bytes :=
  (base32hexLoop input .start).map Decoder.output

/-- `nsec3_owner_hash`, on the text before the first dot. -/
def nsec3OwnerHash (domain : Bytes) : Option Bytes :=
  base32hexDecode (domain.takeWhile fun ch => ch ≠ 46)

/-! ### The encoding -/

/-- A character of the alphabet. -/
def base32hexChar (digit : Nat) : UInt8 :=
  UInt8.ofNat (if digit < 10 then 48 + digit else 55 + digit)

/-- The encoding without padding: the bits of the bytes in groups of five. -/
def base32hexEncode (bytes : Bytes) : Bytes :=
  (group 5 (stream 8 (bytes.map UInt8.toNat))).map base32hexChar

/-- A character that stands for five bits. -/
def InAlphabet (ch : UInt8) : Prop :=
  (48 ≤ ch ∧ ch ≤ 57) ∨ (65 ≤ ch ∧ ch ≤ 86) ∨ (97 ≤ ch ∧ ch ≤ 118)

instance (ch : UInt8) : Decidable (InAlphabet ch) :=
  inferInstanceAs (Decidable ((48 ≤ ch ∧ ch ≤ 57) ∨ (65 ≤ ch ∧ ch ≤ 86) ∨ (97 ≤ ch ∧ ch ≤ 118)))

section Alphabet

variable {ch : UInt8} {digit : Nat}

theorem inAlphabet_iff :
    InAlphabet ch ↔ (48 ≤ ch.toNat ∧ ch.toNat ≤ 57) ∨ (65 ≤ ch.toNat ∧ ch.toNat ≤ 86) ∨
      (97 ≤ ch.toNat ∧ ch.toNat ≤ 118) := by
  simp only [InAlphabet, UInt8.le_iff_toNat_le]
  rfl

theorem toNat_base32hexLut (ch : UInt8) :
    (base32hexLut ch).toNat =
      if 48 ≤ ch.toNat ∧ ch.toNat ≤ 57 then ch.toNat - 48
      else if 65 ≤ ch.toNat ∧ ch.toNat ≤ 86 then ch.toNat - 55
      else if 97 ≤ ch.toNat ∧ ch.toNat ≤ 118 then ch.toNat - 87
      else 255 := by
  have hsub : ∀ low : UInt8, low ≤ ch → (ch - low).toNat = ch.toNat - low.toNat :=
    fun low hlow => UInt8.toNat_sub_of_le ch low hlow
  have hbelow : ∀ low high : UInt8, low ≤ high → high ≤ ch → low ≤ ch :=
    fun low high hlow hhigh => UInt8.le_trans hlow hhigh
  unfold base32hexLut
  by_cases hdigit : 48 ≤ ch ∧ ch ≤ 57
  · rw [if_pos hdigit, if_pos (show 48 ≤ ch.toNat ∧ ch.toNat ≤ 57 from hdigit)]
    exact hsub 48 hdigit.1
  rw [if_neg hdigit, if_neg (show ¬ (48 ≤ ch.toNat ∧ ch.toNat ≤ 57) from hdigit)]
  by_cases hupper : 65 ≤ ch ∧ ch ≤ 86
  · rw [if_pos hupper, if_pos (show 65 ≤ ch.toNat ∧ ch.toNat ≤ 86 from hupper)]
    exact hsub 55 (hbelow 55 65 (by decide) hupper.1)
  rw [if_neg hupper, if_neg (show ¬ (65 ≤ ch.toNat ∧ ch.toNat ≤ 86) from hupper)]
  by_cases hlower : 97 ≤ ch ∧ ch ≤ 118
  · rw [if_pos hlower, if_pos (show 97 ≤ ch.toNat ∧ ch.toNat ≤ 118 from hlower)]
    exact hsub 87 (hbelow 87 97 (by decide) hlower.1)
  rw [if_neg hlower, if_neg (show ¬ (97 ≤ ch.toNat ∧ ch.toNat ≤ 118) from hlower)]
  rfl

theorem base32hexLut_eq_invalid : base32hexLut ch = 0xFF ↔ ¬ InAlphabet ch := by
  have hvalue := toNat_base32hexLut ch
  rw [← UInt8.toNat_inj, inAlphabet_iff]
  change (base32hexLut ch).toNat = 255 ↔ _
  split at hvalue
  · omega
  split at hvalue
  · omega
  split at hvalue <;> omega

theorem toNat_base32hexLut_lt (h : InAlphabet ch) : (base32hexLut ch).toNat < 2 ^ 5 := by
  rw [inAlphabet_iff] at h
  rw [toNat_base32hexLut]
  split
  · omega
  split
  · omega
  split <;> omega

/-- Letter case does not matter to the table. -/
theorem base32hexLut_asciiLower (ch : UInt8) : base32hexLut (asciiLower ch) = base32hexLut ch := by
  rw [← UInt8.toNat_inj, toNat_base32hexLut, toNat_base32hexLut, toNat_asciiLower]
  by_cases hupper : 65 ≤ ch.toNat ∧ ch.toNat ≤ 90
  · rw [if_pos hupper]
    split_ifs <;> omega
  · rw [if_neg hupper]

theorem toNat_base32hexLut_char (h : digit < 2 ^ 5) :
    (base32hexLut (base32hexChar digit)).toNat = digit := by
  have hchar : (base32hexChar digit).toNat = if digit < 10 then 48 + digit else 55 + digit := by
    rw [base32hexChar, UInt8.toNat_ofNat']
    split <;> omega
  rw [toNat_base32hexLut, hchar]
  split_ifs <;> omega

end Alphabet

/-! ### One round -/

namespace Decoder

/-- The decoder as a regrouper. -/
def regroup (s : Decoder) : Regroup := ⟨s.bits.toNat, s.bitCount.toNat, s.output.map UInt8.toNat⟩

section Round

variable {s : Decoder} {vs : List Nat} {val : UInt8}

theorem toNat_accumulate (hbits : s.bits.toNat < 2 ^ 7) (hval : val.toNat < 2 ^ 5) :
    (s.accumulate val).toNat = 2 ^ 5 * s.bits.toNat + val.toNat := by
  have hshift : (s.bits <<< 5).toNat = 2 ^ 5 * s.bits.toNat := by
    have hfive : (5 : UInt64).toNat % 64 = 5 := by decide
    rw [UInt64.toNat_shiftLeft, hfive, Nat.shiftLeft_eq]
    omega
  rw [accumulate, UInt64.toNat_or, hshift, UInt8.toNat_toUInt64, ← Nat.two_pow_add_eq_or_of_lt hval]

/-- The mask of a number of bits. -/
theorem toNat_mask {c : UInt64} (hc : c.toNat < 8) : ((1 <<< c) - 1).toNat = 2 ^ c.toNat - 1 := by
  have hpow : 2 ^ c.toNat < 2 ^ 8 := Nat.pow_lt_pow_right (by decide) hc
  have hone : ((1 : UInt64) <<< c).toNat = 2 ^ c.toNat := by
    have hunit : (1 : UInt64).toNat = 1 := rfl
    have hmod : c.toNat % 64 = c.toNat := Nat.mod_eq_of_lt (by omega)
    rw [UInt64.toNat_shiftLeft, Nat.shiftLeft_eq, hunit, Nat.one_mul, hmod]
    exact Nat.mod_eq_of_lt (Nat.lt_of_lt_of_le hpow (by decide))
  rw [UInt64.toNat_sub_of_le _ _ (UInt64.le_iff_toNat_le.mpr ?_), hone]
  · rfl
  · rw [hone]
    exact Nat.two_pow_pos c.toNat

/-- Between two rounds there are at most seven bits. -/
theorem bits_lt (h : Regroup.Follows 5 8 vs s.regroup) : s.bits.toNat < 2 ^ 7 := by
  have hshort : s.bitCount.toNat < 8 := h.short
  exact Nat.lt_of_lt_of_le h.small
    (Nat.pow_le_pow_right Nat.two_pos (Nat.le_of_lt_succ hshort))

/-- A round in 64 bits is a round in numbers, while less than a byte is held. -/
theorem regroup_push (h : Regroup.Follows 5 8 vs s.regroup) (hval : val.toNat < 2 ^ 5) :
    (s.push val).regroup = s.regroup.push 5 8 val.toNat := by
  have hshort : s.bitCount.toNat < 8 := h.short
  have hacc : (s.accumulate val).toNat = s.regroup.shifted 5 val.toNat :=
    toNat_accumulate (bits_lt h) hval
  have hcount : (s.bitCount + 5).toNat = s.bitCount.toNat + 5 := by
    have hsum : (s.bitCount + 5).toNat = (s.bitCount.toNat + 5) % 256 := UInt8.toNat_add _ _
    omega
  have henough : 8 ≤ s.bitCount + 5 ↔ 8 ≤ s.regroup.count + 5 := by
    rw [UInt8.le_iff_toNat_le, hcount]
    rfl
  unfold push Regroup.push
  dsimp only
  by_cases hfull : 8 ≤ s.regroup.count + 5
  · rw [if_pos (henough.mpr hfull), if_pos hfull]
    have hleft : (s.bitCount + 5 - 8).toNat = s.bitCount.toNat + 5 - 8 := by
      rw [UInt8.toNat_sub_of_le _ _ (henough.mpr hfull), hcount]
      rfl
    have hwide : (s.bitCount + 5 - 8).toUInt64.toNat = s.bitCount.toNat + 5 - 8 := by
      rw [UInt8.toNat_toUInt64, hleft]
    have hheld : (s.accumulate val &&& ((1 <<< (s.bitCount + 5 - 8).toUInt64) - 1)).toNat =
        s.regroup.shifted 5 val.toNat % 2 ^ (s.bitCount.toNat + 5 - 8) := by
      rw [UInt64.toNat_and, toNat_mask (by omega), hwide, hacc, Nat.and_two_pow_sub_one_eq_mod]
    have hbyte : (s.accumulate val >>> (s.bitCount + 5 - 8).toUInt64).toUInt8.toNat =
        s.regroup.shifted 5 val.toNat / 2 ^ (s.bitCount.toNat + 5 - 8) := by
      have hmod : (s.bitCount.toNat + 5 - 8) % 64 = s.bitCount.toNat + 5 - 8 :=
        Nat.mod_eq_of_lt (by omega)
      rw [UInt64.toNat_toUInt8, UInt64.toNat_shiftRight, hwide, hacc, hmod,
        Nat.shiftRight_eq_div_pow]
      have hshifted : s.regroup.shifted 5 val.toNat < 2 ^ (s.bitCount.toNat + 5) :=
        h.shifted_lt hval
      have hwidth : s.bitCount.toNat + 5 = 8 + (s.bitCount.toNat + 5 - 8) := by
        have hfull' : 8 ≤ s.bitCount.toNat + 5 := hfull
        omega
      rw [hwidth, Nat.pow_add] at hshifted
      exact Nat.mod_eq_of_lt ((Nat.div_lt_iff_lt_mul (Nat.two_pow_pos _)).mpr hshifted)
    unfold regroup
    rw [hheld, hleft, List.map_append, List.map_singleton, hbyte]
    rfl
  · rw [if_neg (henough.not.mpr hfull), if_neg hfull]
    unfold regroup
    rw [hacc, hcount]
    rfl

end Round

/-- A round keeps the invariant. -/
theorem follows_push {s : Decoder} {vs : List Nat} {val : UInt8}
    (h : Regroup.Follows 5 8 vs s.regroup) (hval : val.toNat < 2 ^ 5) :
    Regroup.Follows 5 8 (vs ++ [val.toNat]) (s.push val).regroup := by
  rw [regroup_push h hval]
  exact h.push (by decide) hval

end Decoder

/-! ### The loop -/

section Loop

variable {input before text : Bytes} {s : Decoder}

/-- The characters in front of the first `=`. -/
def dataChars (input : Bytes) : Bytes := input.takeWhile fun ch => ch ≠ 61

theorem dataChars_pad (rest : Bytes) : dataChars (61 :: rest) = [] := rfl

theorem dataChars_cons {ch : UInt8} (h : ch ≠ 61) (rest : Bytes) :
    dataChars (ch :: rest) = ch :: dataChars rest :=
  List.takeWhile_cons_of_pos (by simpa using h)

/-- The values of the characters. -/
def base32hexValues (chars : Bytes) : List Nat := chars.map fun ch => (base32hexLut ch).toNat

/-- One round of the loop. -/
theorem base32hexLoop_cons {ch : UInt8} (hpad : ch ≠ 61) (rest : Bytes) (s : Decoder) :
    base32hexLoop (ch :: rest) s =
      if InAlphabet ch then base32hexLoop rest (s.push (base32hexLut ch)) else none := by
  rw [base32hexLoop, if_neg hpad]
  by_cases hch : InAlphabet ch
  · have hascii : ¬ 128 ≤ ch := by
      rw [UInt8.le_iff_toNat_le]
      rw [inAlphabet_iff] at hch
      change ¬ 128 ≤ ch.toNat
      omega
    rw [if_neg hascii, if_neg (base32hexLut_eq_invalid.not.mpr (not_not_intro hch)), if_pos hch]
  · rw [if_pos (base32hexLut_eq_invalid.mpr hch), if_neg hch, ite_self]

/-- The loop takes in the characters in front of the first `=`, if all of them are in
the alphabet. -/
theorem base32hexLoop_eq_some (h : ∀ ch ∈ dataChars input, InAlphabet ch) (s : Decoder) :
    base32hexLoop input s =
      some ((dataChars input).foldl (fun s ch => s.push (base32hexLut ch)) s) := by
  induction input generalizing s with
  | nil => rfl
  | cons ch rest ih =>
      by_cases hpad : ch = 61
      · rw [hpad]
        rfl
      rw [dataChars_cons hpad] at h ⊢
      obtain ⟨hch, hrest⟩ := List.forall_mem_cons.mp h
      rw [base32hexLoop_cons hpad, if_pos hch, List.foldl_cons, ih hrest]

/-- Otherwise it gives up. -/
theorem base32hexLoop_eq_none (h : ¬ ∀ ch ∈ dataChars input, InAlphabet ch) (s : Decoder) :
    base32hexLoop input s = none := by
  induction input generalizing s with
  | nil => exact absurd nofun h
  | cons ch rest ih =>
      by_cases hpad : ch = 61
      · rw [hpad, dataChars_pad] at h
        exact absurd nofun h
      rw [dataChars_cons hpad, List.forall_mem_cons, not_and] at h
      rw [base32hexLoop_cons hpad]
      by_cases hch : InAlphabet ch
      · rw [if_pos hch, ih (h hch)]
      · rw [if_neg hch]

/-- The decoder after any characters of the alphabet. -/
theorem follows_foldl {vs : List Nat} {chars : Bytes} (h : Regroup.Follows 5 8 vs s.regroup)
    (hchars : ∀ ch ∈ chars, InAlphabet ch) :
    Regroup.Follows 5 8 (vs ++ base32hexValues chars)
      (chars.foldl (fun s ch => s.push (base32hexLut ch)) s).regroup := by
  induction chars generalizing vs s with
  | nil =>
      rw [base32hexValues, List.map_nil, List.append_nil]
      exact h
  | cons ch chars ih =>
      obtain ⟨hch, hrest⟩ := List.forall_mem_cons.mp hchars
      have hnext := ih (Decoder.follows_push h (toNat_base32hexLut_lt hch)) hrest
      rw [List.append_assoc] at hnext
      exact hnext

theorem follows_start : Regroup.Follows 5 8 [] Decoder.start.regroup :=
  Regroup.follows_empty (by decide)

/-- **The loop invariant**: a run that is not given up has taken in characters of the
alphabet, and holds and gave off their bits. -/
theorem base32hexLoop_follows (h : base32hexLoop input .start = some s) :
    Regroup.Follows 5 8 (base32hexValues (dataChars input)) s.regroup := by
  by_cases halphabet : ∀ ch ∈ dataChars input, InAlphabet ch
  · rw [base32hexLoop_eq_some halphabet] at h
    cases h
    exact follows_foldl follows_start halphabet
  · rw [base32hexLoop_eq_none halphabet] at h
    cases h

/-- The decoder on the characters in front of the first `=`. -/
theorem base32hexDecode_eq_some {bytes : Bytes} :
    base32hexDecode input = some bytes ↔
      ∃ s, base32hexLoop input .start = some s ∧ s.output = bytes := by
  rw [base32hexDecode, Option.map_eq_some_iff]

/-- A text in the alphabet decodes to one byte for every eight bits. -/
theorem length_base32hexDecode (h : ∀ ch ∈ dataChars input, InAlphabet ch) :
    ∃ bytes, base32hexDecode input = some bytes ∧
      bytes.length = 5 * (dataChars input).length / 8 := by
  have hloop := base32hexLoop_eq_some h .start
  have hlength := (base32hexLoop_follows hloop).length_out
  rw [base32hexValues, List.length_map] at hlength
  refine ⟨_, base32hexDecode_eq_some.mpr ⟨_, hloop, rfl⟩, ?_⟩
  rw [← hlength]
  exact (List.length_map _).symm

theorem base32hexDecode_eq_none (h : ¬ ∀ ch ∈ dataChars input, InAlphabet ch) :
    base32hexDecode input = none := by
  rw [base32hexDecode, base32hexLoop_eq_none h]
  rfl

/-- A spelling of an encoding has the values that were encoded. -/
theorem base32hexValues_of_spelling {bytes : Bytes}
    (h : text.map asciiLower = (base32hexEncode bytes).map asciiLower) :
    base32hexValues text = group 5 (stream 8 (bytes.map UInt8.toNat)) := by
  have hspelling : ∀ chars : Bytes,
      base32hexValues chars = base32hexValues (chars.map asciiLower) := by
    intro chars
    rw [base32hexValues, base32hexValues, List.map_map]
    exact List.map_congr_left fun ch _ =>
      congrArg UInt8.toNat (base32hexLut_asciiLower ch).symm
  rw [hspelling text, h, ← hspelling, base32hexEncode, base32hexValues, List.map_map]
  refine (List.map_congr_left fun digit hdigit => ?_).trans (List.map_id _)
  exact toNat_base32hexLut_char (lt_of_mem_group (by decide) hdigit)

theorem inAlphabet_of_spelling {bytes : Bytes}
    (h : text.map asciiLower = (base32hexEncode bytes).map asciiLower) :
    ∀ ch ∈ text, InAlphabet ch := by
  intro ch hch
  have hvalue : (base32hexLut ch).toNat ∈ base32hexValues text := List.mem_map_of_mem hch
  rw [base32hexValues_of_spelling h] at hvalue
  have hsmall := lt_of_mem_group (by decide) hvalue
  by_contra hout
  rw [base32hexLut_eq_invalid.mpr hout] at hsmall
  exact absurd hsmall (by decide)

theorem dataChars_append_pad (h : ∀ ch ∈ text, InAlphabet ch) (pads : Nat) :
    dataChars (text ++ List.replicate pads 61) = text := by
  induction text with
  | nil => cases pads <;> rfl
  | cons ch text ih =>
      obtain ⟨hch, hrest⟩ := List.forall_mem_cons.mp h
      have hne : ch ≠ 61 := by
        rintro rfl
        exact absurd hch (by decide)
      rw [List.cons_append, dataChars_cons hne, ih hrest]

/-- **Decoding inverts encoding**, in either letter case and with any padding. -/
theorem base32hexDecode_encode {bytes : Bytes}
    (h : text.map asciiLower = (base32hexEncode bytes).map asciiLower) (pads : Nat) :
    base32hexDecode (text ++ List.replicate pads 61) = some bytes := by
  have halphabet := inAlphabet_of_spelling h
  have hdata := dataChars_append_pad halphabet pads
  obtain ⟨s, hloop⟩ : ∃ s, base32hexLoop (text ++ List.replicate pads 61) .start = some s :=
    ⟨_, base32hexLoop_eq_some (hdata ▸ halphabet) .start⟩
  have hfollows := base32hexLoop_follows hloop
  rw [hdata, base32hexValues_of_spelling h] at hfollows
  obtain ⟨k, hk, hstream⟩ :=
    stream_group (show 0 < 5 by decide) (stream 8 (bytes.map UInt8.toNat))
  have hdigits : ∀ d ∈ bytes.map UInt8.toNat, d < 2 ^ 8 := by
    intro d hd
    obtain ⟨byte, _, rfl⟩ := List.mem_map.mp hd
    exact byte.toNat_lt
  refine base32hexDecode_eq_some.mpr ⟨s, hloop, ?_⟩
  exact (List.map_injective_iff.mpr fun _ _ => UInt8.toNat_inj.mp)
    (hfollows.out_eq hdigits (by omega) hstream)

/-- The accumulator holds seven bits between two rounds and twelve within one. -/
theorem accumulator_lt (h : base32hexLoop before .start = some s) {ch : UInt8}
    (hch : InAlphabet ch) :
    s.bits.toNat < 2 ^ 7 ∧ (s.accumulate (base32hexLut ch)).toNat < 2 ^ 12 := by
  have hbits := Decoder.bits_lt (base32hexLoop_follows h)
  have hval := toNat_base32hexLut_lt hch
  refine ⟨hbits, ?_⟩
  rw [Decoder.toNat_accumulate hbits hval]
  omega

end Loop

/-- **`base32hex_decode` inverts base32hex.** It takes every spelling and padding of
an encoding back to the bytes, any other text of the alphabet to as many bytes as it
has bits for, and nothing else to anything; and the accumulator never holds more than
twelve bits. -/
theorem base32hexDecode_inverts :
    (∀ (bytes text : Bytes) (pads : Nat),
        text.map asciiLower = (base32hexEncode bytes).map asciiLower →
        base32hexDecode (text ++ List.replicate pads 61) = some bytes) ∧
      (∀ input, (∀ ch ∈ dataChars input, InAlphabet ch) →
        ∃ bytes, base32hexDecode input = some bytes ∧
          bytes.length = 5 * (dataChars input).length / 8) ∧
      (∀ input, (¬ ∀ ch ∈ dataChars input, InAlphabet ch) → base32hexDecode input = none) ∧
      ∀ before s ch, base32hexLoop before .start = some s → InAlphabet ch →
        s.bits.toNat < 2 ^ 12 ∧ (s.accumulate (base32hexLut ch)).toNat < 2 ^ 12 := by
  refine ⟨fun _ _ pads h => base32hexDecode_encode h pads, fun _ => length_base32hexDecode,
    fun _ => base32hexDecode_eq_none, fun before s ch hloop hch => ?_⟩
  obtain ⟨hbits, hacc⟩ := accumulator_lt hloop hch
  exact ⟨Nat.lt_of_lt_of_le hbits (by decide), hacc⟩

/-- The hash of an owner name is what its first label spells. -/
theorem nsec3OwnerHash_encode {hash label : Bytes}
    (h : label.map asciiLower = (base32hexEncode hash).map asciiLower) (zone : Bytes) :
    nsec3OwnerHash (label ++ 46 :: zone) = some hash := by
  have hnodot : ∀ ch ∈ label, decide (ch ≠ 46) = true := by
    intro ch hch
    refine decide_eq_true ?_
    rintro rfl
    exact absurd (inAlphabet_of_spelling h _ hch) (by decide)
  have hdecode := base32hexDecode_encode h 0
  rw [List.replicate_zero, List.append_nil] at hdecode
  rw [nsec3OwnerHash, List.takeWhile_append_of_pos hnodot, List.takeWhile_cons_of_neg (by decide),
    List.append_nil]
  exact hdecode

/-- The bytes `foobar` are `CPNMUOJ1E8`. -/
example : base32hexEncode [102, 111, 111, 98, 97, 114] =
    [67, 80, 78, 77, 85, 79, 74, 49, 69, 56] := by
  decide

end FastDns.Dnssec
