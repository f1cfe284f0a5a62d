/-
Type bitmaps of NSEC records.

`encodeTypeBitmap` writes a set of types as the records carry it: a block for
each window of 256 types that has one, in increasing order, with the window, the
number of bytes and the bytes up to the last one that is not zero. What
`type_bitmap_contains` finds in it is what is in the set
(`typeBitmapContains_encode`). On other bytes the loop ends as well:
`scanTypeBitmap` is the loop on positions, each read checked, and it always
returns (`scanTypeBitmap_eq`).
-/

import FastDns.Dnssec.Denial
import Mathlib.Data.List.DropRight
import Mathlib.Data.Finset.Basic
import Mathlib.Tactic.IntervalCases

namespace FastDns.Dnssec

open FastDns.Lib FastDns.Dns

/-! ### The encoding -/

/-- Flags as a byte, the first one in the highest bit. -/
def packBits (bits : List Bool) : UInt8 :=
  bits.foldl (fun byte bit => 2 * byte + if bit then 1 else 0) 0

/-- The type of a bit in a byte of a window. -/
def typeAt (window byte bit : Nat) : UInt16 := .ofNat (256 * window + 8 * byte + bit)

def windowByte (types : Finset UInt16) (window byte : Nat) : UInt8 :=
  packBits ((List.range 8).map fun bit => decide (typeAt window byte bit ∈ types))

/-- The bitmap of a window, without the zeros at its end. -/
def windowBitmap (types : Finset UInt16) (window : Nat) : Bytes :=
  ((List.range 32).map (windowByte types window)).rdropWhile (· == 0)

/-- The windows that are not empty, with their bitmaps. -/
def windowBlocks (types : Finset UInt16) : List (UInt8 × Bytes) :=
  ((List.range 256).map fun window => (.ofNat window, windowBitmap types window)).filter
    fun block => !block.2.isEmpty

def blockWire (block : UInt8 × Bytes) : Bytes :=
  block.1 :: UInt8.ofNat block.2.length :: block.2

/-- The type bitmap of a set of types. -/
def encodeTypeBitmap (types : Finset UInt16) : Bytes := (windowBlocks types).flatMap blockWire

/-! ### The bits of a window -/

theorem packBits_get (b₀ b₁ b₂ b₃ b₄ b₅ b₆ b₇ : Bool) (bit : Fin 8) :
    (packBits [b₀, b₁, b₂, b₃, b₄, b₅, b₆, b₇] &&& (0x80 >>> UInt8.ofNat bit) != 0) =
      [b₀, b₁, b₂, b₃, b₄, b₅, b₆, b₇].get bit := by
  revert b₀ b₁ b₂ b₃ b₄ b₅ b₆ b₇ bit
  decide +kernel

theorem packBits_map (flag : Nat → Bool) {bit : Nat} (hbit : bit < 8) :
    (packBits ((List.range 8).map flag) &&& (0x80 >>> UInt8.ofNat bit) != 0) = flag bit := by
  have hbits := packBits_get (flag 0) (flag 1) (flag 2) (flag 3) (flag 4) (flag 5) (flag 6)
    (flag 7) ⟨bit, hbit⟩
  refine hbits.trans ?_
  interval_cases bit <;> rfl

section Window

variable {types : Finset UInt16} {window byte bit : Nat}

theorem windowByte_test (hbit : bit < 8) :
    (windowByte types window byte &&& (0x80 >>> UInt8.ofNat bit) != 0) =
      decide (typeAt window byte bit ∈ types) :=
  packBits_map (fun bit => decide (typeAt window byte bit ∈ types)) hbit

/-- The zeros at the end do not show. -/
theorem getD_rdropWhile_zero (bytes : Bytes) (i : Nat) :
    (bytes.rdropWhile (· == 0)).getD i 0 = bytes.getD i 0 := by
  induction bytes using List.reverseRecOn with
  | nil => rfl
  | append_singleton bytes last ih =>
      rw [List.rdropWhile_concat]
      split
      · rename_i hzero
        rw [ih]
        rcases Nat.lt_or_ge i bytes.length with hin | hout
        · rw [List.getD_append _ _ _ _ hin]
        · rw [List.getD_append_right _ _ _ _ hout, List.getD_eq_default _ _ hout,
            beq_iff_eq.mp hzero]
          cases i - bytes.length <;> rfl
      · rfl

theorem getD_windowBitmap (hbyte : byte < 32) :
    (windowBitmap types window).getD byte 0 = windowByte types window byte := by
  rw [windowBitmap, getD_rdropWhile_zero, List.getD_eq_getElem?_getD, List.getElem?_map,
    List.getElem?_range hbyte, Option.map_some, Option.getD_some]

theorem length_windowBitmap_le (types : Finset UInt16) (window : Nat) :
    (windowBitmap types window).length ≤ 32 := by
  have hprefix := List.rdropWhile_prefix (· == 0) ((List.range 32).map (windowByte types window))
  rw [windowBitmap]
  simpa using hprefix.length_le

/-- A byte is zero if none of its types is in the set. -/
theorem windowByte_eq_zero :
    windowByte types window byte = 0 ↔ ∀ bit < 8, typeAt window byte bit ∉ types := by
  constructor
  · intro hzero bit hbit
    have htest : (windowByte types window byte &&& (0x80 >>> UInt8.ofNat bit) != 0) =
        decide (typeAt window byte bit ∈ types) := windowByte_test hbit
    rw [hzero, UInt8.zero_and] at htest
    exact of_decide_eq_false htest.symm
  · intro hnone
    have hflags : (List.range 8).map (fun bit => decide (typeAt window byte bit ∈ types)) =
        (List.range 8).map fun _ => false := by
      refine List.map_congr_left fun bit hbit => ?_
      exact decide_eq_false (hnone bit (List.mem_range.mp hbit))
    rw [windowByte, hflags]
    rfl

theorem windowBitmap_eq_nil :
    windowBitmap types window = [] ↔
      ∀ byte < 32, ∀ bit < 8, typeAt window byte bit ∉ types := by
  rw [windowBitmap, List.rdropWhile_eq_nil_iff]
  simp only [List.mem_map, List.mem_range, forall_exists_index, and_imp, forall_apply_eq_imp_iff₂,
    beq_iff_eq, windowByte_eq_zero]

end Window

/-! ### The loop over blocks -/

/-- The block is the one of the window, and the bit is set in it. -/
def blockHas (targetWindow : UInt8) (byteOffset : Nat) (bitMask : UInt8)
    (block : UInt8 × Bytes) : Bool :=
  decide (block.1 = targetWindow) && (block.2.getD byteOffset 0 &&& bitMask != 0)

section Blocks

variable {targetWindow : UInt8} {byteOffset : Nat} {bitMask : UInt8}
  {blocks : List (UInt8 × Bytes)} {fuel : Nat}

/-- No other window has the bit. -/
theorem any_blockHas_of_ne (hne : ∀ block ∈ blocks, block.1 ≠ targetWindow) :
    blocks.any (blockHas targetWindow byteOffset bitMask) = false := by
  rw [List.any_eq_false]
  intro block hblock
  simp [blockHas, hne block hblock]

/-- Windows that are all different are read one by one. -/
theorem bitmapLoop_flatMap (hsizes : ∀ block ∈ blocks, block.2.length < 256)
    (hdistinct : blocks.Pairwise fun a b => a.1 ≠ b.1) (hfuel : blocks.length ≤ fuel) :
    bitmapLoop targetWindow byteOffset bitMask fuel (blocks.flatMap blockWire) =
      blocks.any (blockHas targetWindow byteOffset bitMask) := by
  induction blocks generalizing fuel with
  | nil => cases fuel <;> rfl
  | cons block blocks ih =>
      obtain ⟨fuel, rfl⟩ := Nat.exists_eq_add_of_le' (Nat.lt_of_lt_of_le (Nat.succ_pos _) hfuel)
      obtain ⟨hothers, hrest⟩ := List.pairwise_cons.mp hdistinct
      have hlength : (UInt8.ofNat block.2.length).toNat = block.2.length :=
        UInt8.toNat_ofNat_of_lt' (hsizes block List.mem_cons_self)
      have hfits : ¬ (block.2 ++ blocks.flatMap blockWire).length < block.2.length := by
        rw [List.length_append]
        omega
      have hloop := ih (fun b hb => hsizes b (List.mem_cons_of_mem _ hb)) hrest
        (Nat.le_of_succ_le_succ hfuel)
      rw [List.flatMap_cons, blockWire, List.cons_append, List.cons_append, bitmapLoop, hlength,
        if_neg hfits, List.any_cons]
      by_cases htarget : block.1 = targetWindow ∧ byteOffset < block.2.length
      · have hnone : blocks.any (blockHas targetWindow byteOffset bitMask) = false :=
          any_blockHas_of_ne fun b hb heq => hothers b hb (htarget.1.trans heq.symm)
        rw [if_pos htarget, List.getD_append _ _ _ _ htarget.2, hnone, Bool.or_false, blockHas,
          decide_eq_true htarget.1, Bool.true_and]
      · have hmiss : blockHas targetWindow byteOffset bitMask block = false := by
          rcases not_and_or.mp htarget with hwindow | hshort
          · simp [blockHas, hwindow]
          · rw [blockHas, List.getD_eq_default _ _ (Nat.le_of_not_lt hshort)]
            simp
        rw [if_neg htarget, List.drop_left, hloop, hmiss, Bool.false_or]

end Blocks

/-! ### The blocks of a set -/

section Encoded

variable {types : Finset UInt16} {block : UInt8 × Bytes}

theorem mem_windowBlocks :
    block ∈ windowBlocks types ↔
      ∃ window < 256, block = (.ofNat window, windowBitmap types window) ∧
        windowBitmap types window ≠ [] := by
  simp only [windowBlocks, List.mem_filter, List.mem_map, List.mem_range]
  constructor
  · rintro ⟨⟨window, hwindow, rfl⟩, hnonempty⟩
    exact ⟨window, hwindow, rfl, by simpa using hnonempty⟩
  · rintro ⟨window, hwindow, rfl, hnonempty⟩
    exact ⟨⟨window, hwindow, rfl⟩, by simpa using hnonempty⟩

/-- The blocks are in the order of their windows. -/
theorem windowBlocks_ascending (types : Finset UInt16) :
    (windowBlocks types).Pairwise fun a b => a.1 < b.1 := by
  refine List.Pairwise.filter _ (List.pairwise_map.mpr ?_)
  refine List.Pairwise.imp_of_mem ?_ List.pairwise_lt_range
  intro a b ha hb hlt
  rw [List.mem_range] at ha hb
  rw [UInt8.lt_iff_toNat_lt, UInt8.toNat_ofNat_of_lt' ha, UInt8.toNat_ofNat_of_lt' hb]
  exact hlt

/-- A block has one to 32 bytes, and the last one is not zero. -/
theorem windowBlocks_sizes (hblock : block ∈ windowBlocks types) :
    1 ≤ block.2.length ∧ block.2.length ≤ 32 ∧ block.2.getLast? ≠ some 0 := by
  obtain ⟨window, -, rfl, hnonempty⟩ := mem_windowBlocks.mp hblock
  refine ⟨List.length_pos_iff.mpr hnonempty, length_windowBitmap_le types window, ?_⟩
  intro hlast
  have hkept := List.rdropWhile_last_not (· == 0) ((List.range 32).map (windowByte types window))
    hnonempty
  rw [List.getLast?_eq_some_getLast hnonempty, Option.some.injEq] at hlast
  exact hkept (beq_iff_eq.mpr hlast)

/-- The types of a window that has a bitmap, and only they, are in the set. -/
theorem any_windowBlocks (types : Finset UInt16) {window byte bit : Nat} (hwindow : window < 256)
    (hbyte : byte < 32) (hbit : bit < 8) :
    (windowBlocks types).any (blockHas (.ofNat window) byte (0x80 >>> UInt8.ofNat bit)) =
      decide (typeAt window byte bit ∈ types) := by
  rw [← windowByte_test hbit, ← getD_windowBitmap hbyte, Bool.eq_iff_iff, List.any_eq_true]
  constructor
  · rintro ⟨block, hblock, hhas⟩
    obtain ⟨other, hother, rfl, -⟩ := mem_windowBlocks.mp hblock
    rw [blockHas, Bool.and_eq_true, decide_eq_true_eq] at hhas
    have hsame : other = window := by
      have htoNat := congrArg UInt8.toNat hhas.1
      rwa [UInt8.toNat_ofNat_of_lt' hother, UInt8.toNat_ofNat_of_lt' hwindow] at htoNat
    rw [← hsame]
    exact hhas.2
  · intro hset
    have hnonempty : windowBitmap types window ≠ [] := by
      intro hempty
      rw [hempty] at hset
      simp at hset
    refine ⟨(.ofNat window, windowBitmap types window),
      mem_windowBlocks.mpr ⟨window, hwindow, rfl, hnonempty⟩, ?_⟩
    rw [blockHas, decide_eq_true rfl, Bool.true_and]
    exact hset

end Encoded

/-- The parts a type is taken apart into. -/
theorem typeBitmapContains_eq (bitmap : Bytes) (qtype : UInt16) :
    typeBitmapContains bitmap qtype =
      bitmapLoop (.ofNat (qtype.toNat / 256)) (qtype.toNat % 256 / 8)
        (0x80 >>> UInt8.ofNat (qtype.toNat % 8)) bitmap.length bitmap := by
  have hwindow : (qtype / 256).toUInt8 = .ofNat (qtype.toNat / 256) := by
    rw [← UInt8.toNat_inj]
    simp
  have hoffset : ((qtype % 256).toUInt8 / 8).toNat = qtype.toNat % 256 / 8 := by simp
  have hbit : (qtype % 256).toUInt8 % 8 = .ofNat (qtype.toNat % 8) := by
    rw [← UInt8.toNat_inj]
    simp
    omega
  rw [typeBitmapContains, hwindow, hoffset, hbit]

theorem typeAt_parts (qtype : UInt16) :
    typeAt (qtype.toNat / 256) (qtype.toNat % 256 / 8) (qtype.toNat % 8) = qtype := by
  have hsum : 256 * (qtype.toNat / 256) + 8 * (qtype.toNat % 256 / 8) + qtype.toNat % 8 =
      qtype.toNat := by omega
  rw [typeAt, hsum, UInt16.ofNat_toNat]

/-- What is found in the bitmap of a set is what is in the set. -/
theorem typeBitmapContains_encode (types : Finset UInt16) (qtype : UInt16) :
    typeBitmapContains (encodeTypeBitmap types) qtype = decide (qtype ∈ types) := by
  have hlt := qtype.toNat_lt
  have hsizes : ∀ block ∈ windowBlocks types, block.2.length < 256 := by
    intro block hblock
    have hle := (windowBlocks_sizes hblock).2.1
    omega
  have hdistinct : (windowBlocks types).Pairwise fun a b => a.1 ≠ b.1 :=
    (windowBlocks_ascending types).imp fun h => UInt8.ne_of_lt h
  have hfuel : (windowBlocks types).length ≤ (encodeTypeBitmap types).length := by
    rw [encodeTypeBitmap, length_flatMap_wire]
    exact length_le_totalSize fun block _ => Nat.succ_pos _
  rw [typeBitmapContains_eq]
  refine (bitmapLoop_flatMap hsizes hdistinct hfuel).trans ?_
  rw [any_windowBlocks types (by omega) (by omega) (by omega), typeAt_parts]

/-- A window has a block exactly if one of its types is in the set. -/
theorem windowBlocks_present (types : Finset UInt16) (window : UInt8) :
    (∃ block ∈ windowBlocks types, block.1 = window) ↔
      ∃ qtype ∈ types, qtype.toNat / 256 = window.toNat := by
  constructor
  · rintro ⟨block, hblock, rfl⟩
    obtain ⟨number, hnumber, rfl, hnonempty⟩ := mem_windowBlocks.mp hblock
    rw [Ne, windowBitmap_eq_nil] at hnonempty
    push Not at hnonempty
    obtain ⟨byte, hbyte, bit, hbit, hmem⟩ := hnonempty
    refine ⟨typeAt number byte bit, hmem, ?_⟩
    have hlt : 256 * number + 8 * byte + bit < UInt16.size := by
      rw [UInt16.size]
      omega
    rw [typeAt, UInt16.toNat_ofNat_of_lt' hlt, UInt8.toNat_ofNat_of_lt' hnumber]
    omega
  · rintro ⟨qtype, hmem, hwindow⟩
    have hlt := window.toNat_lt
    have hnonempty : windowBitmap types window.toNat ≠ [] := by
      rw [Ne, windowBitmap_eq_nil]
      intro hnone
      have hmissing := hnone (qtype.toNat % 256 / 8) (by omega) (qtype.toNat % 8) (by omega)
      rw [← hwindow, typeAt_parts] at hmissing
      exact hmissing hmem
    exact ⟨_, mem_windowBlocks.mpr ⟨window.toNat, hlt, rfl, hnonempty⟩, UInt8.ofNat_toNat⟩

/-! ### The loop on positions -/

/-- The loop of `type_bitmap_contains` as it reads the bytes: at `pos` the window,
then the length, then the byte with the bit. -/
def bitmapScan {ε : Type} (bitmap : Bytes) (targetWindow : UInt8) (byteOffset : Nat)
    (bitMask : UInt8) : Nat → Nat → Outcome ε Bool
  | 0, _ => .diverge
  | fuel + 1, pos =>
      if pos + 2 ≤ bitmap.length then do
        let window ← index bitmap pos
        let bmapLen ← index bitmap (pos + 1)
        if pos + 2 + bmapLen.toNat > bitmap.length then pure false
        else if window = targetWindow ∧ byteOffset < bmapLen.toNat then do
          let byte ← index bitmap (pos + 2 + byteOffset)
          pure (byte &&& bitMask != 0)
        else bitmapScan bitmap targetWindow byteOffset bitMask fuel (pos + 2 + bmapLen.toNat)
      else pure false

/-- `type_bitmap_contains` with checked reads. Each round takes two bytes at least,
so there are fewer rounds than the bound allows. -/
def scanTypeBitmap {ε : Type} (bitmap : Bytes) (qtype : UInt16) : Outcome ε Bool :=
  let targetWindow := (qtype / 256).toUInt8
  let targetBit := (qtype % 256).toUInt8
  bitmapScan bitmap targetWindow (targetBit / 8).toNat (0x80 >>> (targetBit % 8))
    (bitmap.length + 1) 0

/-- The two bytes before a bitmap. -/
theorem drop_eq_block {bytes : Bytes} {pos : Nat} (h : pos + 2 ≤ bytes.length) :
    bytes.drop pos = bytes.getD pos 0 :: bytes.getD (pos + 1) 0 :: bytes.drop (pos + 2) := by
  have hfirst : pos < bytes.length := by omega
  have hsecond : pos + 1 < bytes.length := by omega
  rw [List.drop_eq_getElem_cons hfirst, List.drop_eq_getElem_cons hsecond,
    List.getD_eq_getElem _ _ hfirst, List.getD_eq_getElem _ _ hsecond]

/-- From any position the scan returns what the loop finds in the rest. -/
theorem bitmapScan_eq {ε : Type} (bitmap : Bytes) (targetWindow : UInt8) (byteOffset : Nat)
    (bitMask : UInt8) {fuel fuel' pos : Nat} (hpos : pos ≤ bitmap.length)
    (hfuel : bitmap.length < fuel + pos) (hfuel' : bitmap.length ≤ fuel' + pos) :
    (bitmapScan bitmap targetWindow byteOffset bitMask fuel pos : Outcome ε Bool) =
      .ok (bitmapLoop targetWindow byteOffset bitMask fuel' (bitmap.drop pos)) := by
  induction fuel generalizing fuel' pos with
  | zero => omega
  | succ fuel ih =>
      by_cases hroom : pos + 2 ≤ bitmap.length
      · obtain ⟨fuel', rfl⟩ := Nat.exists_eq_add_of_le' (show 1 ≤ fuel' by omega)
        have hrest : (bitmap.drop (pos + 2)).length = bitmap.length - (pos + 2) :=
          List.length_drop
        rw [bitmapScan, if_pos hroom, index_eq_getD (show pos < bitmap.length by omega),
          index_eq_getD (show pos + 1 < bitmap.length by omega), drop_eq_block hroom, bitmapLoop,
          hrest, Outcome.ok_bind, Outcome.ok_bind]
        by_cases hcut : pos + 2 + (bitmap.getD (pos + 1) 0).toNat > bitmap.length
        · rw [if_pos hcut, if_pos (show _ - _ < _ by omega)]
          rfl
        · rw [if_neg hcut, if_neg (show ¬ _ - _ < _ by omega)]
          by_cases htarget : bitmap.getD pos 0 = targetWindow ∧
              byteOffset < (bitmap.getD (pos + 1) 0).toNat
          · have hread : bitmap.getD (pos + 2 + byteOffset) 0 =
                (bitmap.drop (pos + 2)).getD byteOffset 0 := by
              rw [List.getD_eq_getElem?_getD, List.getD_eq_getElem?_getD, List.getElem?_drop]
            rw [if_pos htarget, if_pos htarget, index_eq_getD (by omega), hread]
            rfl
          · rw [if_neg htarget, if_neg htarget, List.drop_drop]
            exact ih (by omega) (by omega) (by omega)
      · -- One byte at most is left, which is no block.
        rw [bitmapScan, if_neg hroom]
        have hshort : (bitmap.drop pos).length < 2 := by
          rw [List.length_drop]
          omega
        match bitmap.drop pos, hshort with
        | [], _ => cases fuel' <;> rfl
        | [byte], _ => cases fuel' <;> rfl

/-- The scan returns on all bytes, and what the loop returns. -/
theorem scanTypeBitmap_eq {ε : Type} (bitmap : Bytes) (qtype : UInt16) :
    (scanTypeBitmap bitmap qtype : Outcome ε Bool) = .ok (typeBitmapContains bitmap qtype) :=
  bitmapScan_eq bitmap _ _ _ (Nat.zero_le _) (Nat.lt_succ_self _) (Nat.le_refl _)

/-- **Type bitmaps are read back.** The blocks of a set are as the format asks, a
type is found in its bitmap exactly if it is in the set, NODATA is proven exactly
for a type that is missing where there is no CNAME either, and on all bytes the
scan returns without a read out of range. -/
theorem typeBitmap_decodes (types : Finset UInt16) :
    ((windowBlocks types).Pairwise (fun a b => a.1 < b.1) ∧
      (∀ block ∈ windowBlocks types,
        1 ≤ block.2.length ∧ block.2.length ≤ 32 ∧ block.2.getLast? ≠ some 0) ∧
      ∀ window, (∃ block ∈ windowBlocks types, block.1 = window) ↔
        ∃ qtype ∈ types, qtype.toNat / 256 = window.toNat) ∧
    (∀ qtype, typeBitmapContains (encodeTypeBitmap types) qtype = true ↔ qtype ∈ types) ∧
    (∀ owner qname qtype,
      nsecProvesNodata owner qname (encodeTypeBitmap types) qtype = true ↔
        eqIgnoreCase owner qname = true ∧ qtype ∉ types ∧ 5 ∉ types) ∧
    ∀ (bitmap : Bytes) (qtype : UInt16), (scanTypeBitmap bitmap qtype : Outcome Unit Bool) =
      .ok (typeBitmapContains bitmap qtype) := by
  refine ⟨⟨windowBlocks_ascending types, fun block => windowBlocks_sizes,
    windowBlocks_present types⟩, ?_, ?_, fun bitmap qtype => scanTypeBitmap_eq bitmap qtype⟩
  · intro qtype
    rw [typeBitmapContains_encode, decide_eq_true_eq]
  · intro owner qname qtype
    rw [nsecProvesNodata, typeBitmapContains_encode, typeBitmapContains_encode]
    simp only [Bool.and_eq_true, Bool.not_eq_true', decide_eq_false_iff_not, and_assoc]

/-- A, MX, RRSIG and NSEC in the first window. -/
example : windowBitmap {1, 15, 46, 47} 0 = [0x40, 0x01, 0, 0, 0, 0x03] := by
  decide +kernel

end FastDns.Dnssec
