/-
Byte strings with checked access, big-endian integers and UTF-8 text.

An index, a slice and a subtraction each end in a value or in a panic
(`index`, `slice`, `checkedSub`), never silently out of range. Text is kept as
its UTF-8 bytes: every separator the programs here look for is ASCII, so
splitting and joining act on bytes, and `validUtf8` is the check a byte string
has to pass to be text.
-/

import FastDns.Lib.Outcome
import Mathlib.Algebra.Ring.Nat
import Mathlib.Data.List.GetD

namespace FastDns.Lib

abbrev Bytes := List UInt8

variable {ε : Type}

/-! ### Checked access -/

/-- `data[i]` -/
def index (data : Bytes) (i : Nat) : Outcome ε UInt8 := Outcome.orPanic data[i]?

/-- `&data[a..b]` -/
def slice (data : Bytes) (a b : Nat) : Outcome ε Bytes :=
  if a ≤ b ∧ b ≤ data.length then .ok ((data.drop a).take (b - a)) else .panic

/-- `&data[a..]` -/
def sliceFrom (data : Bytes) (a : Nat) : Outcome ε Bytes := slice data a data.length

/-- `a - b` on unsigned integers. -/
def checkedSub (a b : Nat) : Outcome ε Nat := if b ≤ a then .ok (a - b) else .panic

theorem index_eq_ok {data : Bytes} {i : Nat} {b : UInt8} :
    (index data i : Outcome ε UInt8) = .ok b ↔ data[i]? = some b := by
  unfold index
  cases data[i]? <;> simp

theorem index_of_lt {data : Bytes} {i : Nat} (h : i < data.length) :
    (index data i : Outcome ε UInt8) = .ok data[i] := by
  simp [index, h]

theorem slice_of_le {data : Bytes} {a b : Nat} (hab : a ≤ b) (hb : b ≤ data.length) :
    (slice data a b : Outcome ε Bytes) = .ok ((data.drop a).take (b - a)) := by
  simp [slice, hab, hb]

theorem length_of_slice_eq_ok {data label : Bytes} {a b : Nat}
    (h : (slice data a b : Outcome ε Bytes) = .ok label) : label.length = b - a := by
  unfold slice at h
  split at h
  · cases h
    rw [List.length_take, List.length_drop]
    omega
  · cases h

theorem slice_eq_panic {data : Bytes} {a b : Nat} :
    (slice data a b : Outcome ε Bytes) = .panic ↔ b < a ∨ data.length < b := by
  unfold slice
  split
  · simp; omega
  · simp; omega

theorem sliceFrom_of_le {data : Bytes} {a : Nat} (h : a ≤ data.length) :
    (sliceFrom data a : Outcome ε Bytes) = .ok (data.drop a) := by
  rw [sliceFrom, slice_of_le h (Nat.le_refl _), List.take_of_length_le (by simp)]

theorem sliceFrom_eq_panic {data : Bytes} {a : Nat} :
    (sliceFrom data a : Outcome ε Bytes) = .panic ↔ data.length < a := by
  rw [sliceFrom, slice_eq_panic]
  omega

theorem sliceFrom_eq_ok {data rest : Bytes} {a : Nat}
    (h : (sliceFrom data a : Outcome ε Bytes) = .ok rest) :
    a ≤ data.length ∧ rest = data.drop a := by
  by_cases hle : a ≤ data.length
  · rw [sliceFrom_of_le hle] at h
    cases h
    exact ⟨hle, rfl⟩
  · rw [sliceFrom_eq_panic.mpr (Nat.lt_of_not_le hle)] at h
    cases h

theorem checkedSub_of_le {a b : Nat} (h : b ≤ a) :
    (checkedSub a b : Outcome ε Nat) = .ok (a - b) := by
  simp [checkedSub, h]

theorem checkedSub_eq_ok {a b d : Nat} (h : (checkedSub a b : Outcome ε Nat) = .ok d) :
    b ≤ a ∧ d = a - b := by
  rw [checkedSub] at h
  split at h
  · rename_i hle
    cases h
    exact ⟨hle, rfl⟩
  · cases h

/-! ### Big-endian integers -/

def u16FromBeBytes (a b : UInt8) : UInt16 := UInt16.ofNat (a.toNat * 256 + b.toNat)

def u32FromBeBytes (a b c d : UInt8) : UInt32 :=
  UInt32.ofNat (((a.toNat * 256 + b.toNat) * 256 + c.toNat) * 256 + d.toNat)

def u16ToBeBytes (x : UInt16) : Bytes :=
  [UInt8.ofNat (x.toNat / 256), UInt8.ofNat x.toNat]

def u32ToBeBytes (x : UInt32) : Bytes :=
  [UInt8.ofNat (x.toNat / 16777216), UInt8.ofNat (x.toNat / 65536),
    UInt8.ofNat (x.toNat / 256), UInt8.ofNat x.toNat]

/-- `u64::to_be_bytes` -/
def u64ToBeBytes (x : UInt64) : Bytes :=
  u32ToBeBytes (UInt32.ofNat (x.toNat / 4294967296)) ++ u32ToBeBytes (UInt32.ofNat x.toNat)

/-- `u64::from_be_bytes` of a slice, none if it does not have eight bytes. -/
def u64FromBeBytes : Bytes → Option UInt64
  | [a, b, c, d, e, f, g, h] =>
      some (.ofNat ((u32FromBeBytes a b c d).toNat * 4294967296 + (u32FromBeBytes e f g h).toNat))
  | _ => none

/-- `u16::from_be_bytes([data[i], data[i + 1]])` -/
def readU16 (data : Bytes) (i : Nat) : Outcome ε UInt16 := do
  let a ← index data i
  let b ← index data (i + 1)
  pure (u16FromBeBytes a b)

/-- `u32::from_be_bytes([data[i], .., data[i + 3]])` -/
def readU32 (data : Bytes) (i : Nat) : Outcome ε UInt32 := do
  let a ← index data i
  let b ← index data (i + 1)
  let c ← index data (i + 2)
  let d ← index data (i + 3)
  pure (u32FromBeBytes a b c d)

/-- The 16-bit big-endian number at `i`, 0 past the end: the value `readU16`
returns wherever it is in range. -/
def u16At (data : Bytes) (i : Nat) : UInt16 :=
  u16FromBeBytes (data.getD i 0) (data.getD (i + 1) 0)

/-- The 32-bit big-endian number at `i`, 0 past the end. -/
def u32At (data : Bytes) (i : Nat) : UInt32 :=
  u32FromBeBytes (data.getD i 0) (data.getD (i + 1) 0) (data.getD (i + 2) 0) (data.getD (i + 3) 0)

theorem index_eq_getD {data : Bytes} {i : Nat} (h : i < data.length) :
    (index data i : Outcome ε UInt8) = .ok (data.getD i 0) := by
  simp [index, h]

theorem readU16_of_le {data : Bytes} {i : Nat} (h : i + 2 ≤ data.length) :
    (readU16 data i : Outcome ε UInt16) = .ok (u16At data i) := by
  rw [readU16, index_eq_getD (show i < data.length by omega),
    index_eq_getD (show i + 1 < data.length by omega)]
  rfl

theorem readU32_of_le {data : Bytes} {i : Nat} (h : i + 4 ≤ data.length) :
    (readU32 data i : Outcome ε UInt32) = .ok (u32At data i) := by
  rw [readU32, index_eq_getD (show i < data.length by omega),
    index_eq_getD (show i + 1 < data.length by omega),
    index_eq_getD (show i + 2 < data.length by omega),
    index_eq_getD (show i + 3 < data.length by omega)]
  rfl

theorem u16At_append {data rest : Bytes} {i : Nat} (h : i + 2 ≤ data.length) :
    u16At (data ++ rest) i = u16At data i := by
  simp only [u16At, List.getD_append _ _ _ _ (show i < data.length by omega),
    List.getD_append _ _ _ _ (show i + 1 < data.length by omega)]

theorem u32At_append {data rest : Bytes} {i : Nat} (h : i + 4 ≤ data.length) :
    u32At (data ++ rest) i = u32At data i := by
  simp only [u32At, List.getD_append _ _ _ _ (show i < data.length by omega),
    List.getD_append _ _ _ _ (show i + 1 < data.length by omega),
    List.getD_append _ _ _ _ (show i + 2 < data.length by omega),
    List.getD_append _ _ _ _ (show i + 3 < data.length by omega)]

/-- A part of a message is the same part of the message that goes on. -/
theorem take_drop_append {data : Bytes} {i len : Nat} (h : i + len ≤ data.length) (rest : Bytes) :
    ((data ++ rest).drop i).take len = (data.drop i).take len := by
  rw [List.drop_append_of_le_length (by omega), List.take_append_of_le_length]
  rw [List.length_drop]
  omega

theorem length_u16ToBeBytes (x : UInt16) : (u16ToBeBytes x).length = 2 := rfl

theorem length_u32ToBeBytes (x : UInt32) : (u32ToBeBytes x).length = 4 := rfl

theorem u16FromBeBytes_toBeBytes (x : UInt16) :
    u16FromBeBytes (UInt8.ofNat (x.toNat / 256)) (UInt8.ofNat x.toNat) = x := by
  have hlt := x.toNat_lt
  apply UInt16.toNat_inj.mp
  rw [u16FromBeBytes, UInt16.toNat_ofNat', UInt8.toNat_ofNat', UInt8.toNat_ofNat']
  omega

theorem u16ToBeBytes_fromBeBytes (a b : UInt8) : u16ToBeBytes (u16FromBeBytes a b) = [a, b] := by
  have ha := a.toNat_lt
  have hb := b.toNat_lt
  have hword : (u16FromBeBytes a b).toNat = a.toNat * 256 + b.toNat := by
    rw [u16FromBeBytes, UInt16.toNat_ofNat']
    omega
  rw [u16ToBeBytes, hword, List.cons.injEq, List.cons.injEq]
  refine ⟨UInt8.toNat_inj.mp ?_, UInt8.toNat_inj.mp ?_, rfl⟩
  · rw [UInt8.toNat_ofNat']
    omega
  · rw [UInt8.toNat_ofNat']
    omega

theorem u32FromBeBytes_toBeBytes (x : UInt32) :
    u32FromBeBytes (UInt8.ofNat (x.toNat / 16777216)) (UInt8.ofNat (x.toNat / 65536))
      (UInt8.ofNat (x.toNat / 256)) (UInt8.ofNat x.toNat) = x := by
  have hlt := x.toNat_lt
  apply UInt32.toNat_inj.mp
  rw [u32FromBeBytes, UInt32.toNat_ofNat', UInt8.toNat_ofNat', UInt8.toNat_ofNat',
    UInt8.toNat_ofNat', UInt8.toNat_ofNat']
  omega

theorem length_u64ToBeBytes (x : UInt64) : (u64ToBeBytes x).length = 8 := rfl

theorem u64FromBeBytes_toBeBytes (x : UInt64) : u64FromBeBytes (u64ToBeBytes x) = some x := by
  have hlt := x.toNat_lt
  rw [u64ToBeBytes, u32ToBeBytes, u32ToBeBytes]
  simp only [List.cons_append, List.nil_append, u64FromBeBytes, u32FromBeBytes_toBeBytes,
    Option.some.injEq]
  apply UInt64.toNat_inj.mp
  rw [UInt64.toNat_ofNat', UInt32.toNat_ofNat', UInt32.toNat_ofNat']
  omega

/-! ### Where a byte string stands -/

/-- `bytes` stands at `off` in `data`. -/
def StandsAt (data : Bytes) (off : Nat) (bytes : Bytes) : Prop := bytes <+: data.drop off

section StandsAt

variable {data bytes a b : Bytes} {off : Nat}

theorem standsAt_self (data : Bytes) : StandsAt data 0 data := List.prefix_refl data

theorem standsAt_nil (data : Bytes) (off : Nat) : StandsAt data off [] := List.nil_prefix

theorem standsAt_append :
    StandsAt data off (a ++ b) ↔ StandsAt data off a ∧ StandsAt data (off + a.length) b := by
  constructor
  · rintro ⟨rest, h⟩
    refine ⟨⟨b ++ rest, by rw [← h, List.append_assoc]⟩, rest, ?_⟩
    rw [← List.drop_drop, ← h, List.append_assoc, List.drop_left]
  · rintro ⟨⟨rest, h⟩, rest', h'⟩
    refine ⟨rest', ?_⟩
    rw [← List.drop_drop, ← h, List.drop_left] at h'
    rw [List.append_assoc, h', h]

theorem standsAt_cons {x : UInt8} :
    StandsAt data off (x :: bytes) ↔ data[off]? = some x ∧ StandsAt data (off + 1) bytes := by
  rw [← List.singleton_append, standsAt_append, List.length_singleton]
  refine and_congr_left fun _ => ?_
  rw [StandsAt, ← List.head?_drop]
  cases data.drop off with
  | nil => simp
  | cons y rest => simp [eq_comm]

theorem StandsAt.le (h : StandsAt data off bytes) (hne : bytes ≠ []) :
    off + bytes.length ≤ data.length := by
  have hlen := h.length_le
  have hpos := List.length_pos_iff.mpr hne
  rw [List.length_drop] at hlen
  omega

theorem StandsAt.getElem? {i : Nat} (h : StandsAt data off bytes) (hi : i < bytes.length) :
    data[off + i]? = bytes[i]? := by
  rw [← List.getElem?_drop, List.prefix_iff_getElem?.mp h i hi, List.getElem?_eq_getElem hi]

theorem StandsAt.take_drop (h : StandsAt data off bytes) :
    (data.drop off).take bytes.length = bytes := (List.prefix_iff_eq_take.mp h).symm

theorem StandsAt.slice (h : StandsAt data off bytes) (hne : bytes ≠ []) :
    (slice data off (off + bytes.length) : Outcome ε Bytes) = .ok bytes := by
  rw [slice_of_le (Nat.le_add_right _ _) (h.le hne), Nat.add_sub_cancel_left, h.take_drop]

theorem StandsAt.u16At {x : UInt16} (h : StandsAt data off (u16ToBeBytes x)) :
    u16At data off = x := by
  rw [u16ToBeBytes, standsAt_cons, standsAt_cons] at h
  rw [Lib.u16At, List.getD_eq_getElem?_getD, List.getD_eq_getElem?_getD, h.1, h.2.1]
  exact u16FromBeBytes_toBeBytes x

/-- The number read somewhere is the one that stands there. -/
theorem standsAt_u16At (h : off + 2 ≤ data.length) :
    StandsAt data off (u16ToBeBytes (Lib.u16At data off)) := by
  have hat : ∀ i < data.length, data[i]? = some (data.getD i 0) := fun i hi => by
    rw [List.getElem?_eq_getElem hi, List.getD_eq_getElem _ _ hi]
  rw [Lib.u16At, u16ToBeBytes_fromBeBytes, standsAt_cons, standsAt_cons]
  exact ⟨hat _ (by omega), hat _ (by omega), standsAt_nil _ _⟩

theorem StandsAt.u32At {x : UInt32} (h : StandsAt data off (u32ToBeBytes x)) :
    u32At data off = x := by
  rw [u32ToBeBytes, standsAt_cons, standsAt_cons, standsAt_cons, standsAt_cons] at h
  rw [Lib.u32At, List.getD_eq_getElem?_getD, List.getD_eq_getElem?_getD,
    List.getD_eq_getElem?_getD, List.getD_eq_getElem?_getD, h.1, h.2.1, h.2.2.1, h.2.2.2.1]
  exact u32FromBeBytes_toBeBytes x

theorem StandsAt.readU16 {x : UInt16} (h : StandsAt data off (u16ToBeBytes x)) :
    (readU16 data off : Outcome ε UInt16) = .ok x := by
  rw [readU16_of_le (h.le (List.cons_ne_nil _ _)), h.u16At]

theorem StandsAt.readU32 {x : UInt32} (h : StandsAt data off (u32ToBeBytes x)) :
    (readU32 data off : Outcome ε UInt32) = .ok x := by
  rw [readU32_of_le (h.le (List.cons_ne_nil _ _)), h.u32At]

end StandsAt

/-! ### Items laid out one after another -/

section EachAt

variable {β : Type} {size : β → Nat} {P Q : Nat → β → Prop} {off : Nat} {xs ys : List β}

/-- `P` holds of every item at the offset where it starts. -/
def EachAt (size : β → Nat) (P : Nat → β → Prop) : Nat → List β → Prop
  | _, [] => True
  | off, x :: xs => P off x ∧ EachAt size P (off + size x) xs

/-- The room the items take up. -/
def totalSize (size : β → Nat) (xs : List β) : Nat := (xs.map size).sum

@[simp] theorem totalSize_nil : totalSize size [] = 0 := rfl

@[simp] theorem totalSize_cons {x : β} :
    totalSize size (x :: xs) = size x + totalSize size xs := by
  rw [totalSize, List.map_cons, List.sum_cons, totalSize]

theorem eachAt_append :
    EachAt size P off (xs ++ ys) ↔
      EachAt size P off xs ∧ EachAt size P (off + totalSize size xs) ys := by
  induction xs generalizing off with
  | nil => simp [EachAt]
  | cons x xs ih => simp [EachAt, ih, and_assoc, Nat.add_assoc]

theorem length_le_totalSize (h : ∀ x ∈ xs, 1 ≤ size x) : xs.length ≤ totalSize size xs := by
  induction xs with
  | nil => exact Nat.le_refl 0
  | cons x xs ih =>
      obtain ⟨hx, hxs⟩ := List.forall_mem_cons.mp h
      rw [List.length_cons, totalSize_cons]
      have := ih hxs
      omega

theorem totalSize_append : totalSize size (xs ++ ys) = totalSize size xs + totalSize size ys := by
  simp [totalSize]

theorem totalSize_perm (h : xs.Perm ys) : totalSize size xs = totalSize size ys :=
  (h.map size).sum_nat

theorem EachAt.imp (h : EachAt size P off xs) (hPQ : ∀ off, ∀ x ∈ xs, P off x → Q off x) :
    EachAt size Q off xs := by
  induction xs generalizing off with
  | nil => trivial
  | cons x xs ih =>
      refine ⟨hPQ off x List.mem_cons_self h.1, ih h.2 ?_⟩
      exact fun off y hy => hPQ off y (List.mem_cons_of_mem x hy)

theorem EachAt.and (hP : EachAt size P off xs) (hQ : EachAt size Q off xs) :
    EachAt size (fun off x => P off x ∧ Q off x) off xs := by
  induction xs generalizing off with
  | nil => trivial
  | cons x xs ih => exact ⟨⟨hP.1, hQ.1⟩, ih hP.2 hQ.2⟩

theorem length_flatMap_wire (wire : β → Bytes) (xs : List β) :
    (xs.flatMap wire).length = totalSize (fun x => (wire x).length) xs := by
  rw [totalSize, List.length_flatMap]

/-- A concatenation stands where its parts stand one after another. -/
theorem standsAt_flatMap {data : Bytes} (wire : β → Bytes) :
    StandsAt data off (xs.flatMap wire) ↔
      EachAt (fun x => (wire x).length) (fun off x => StandsAt data off (wire x)) off xs := by
  induction xs generalizing off with
  | nil => simp [EachAt, standsAt_nil]
  | cons x xs ih => rw [List.flatMap_cons, standsAt_append, ih, EachAt]

end EachAt

/-! ### Text -/

/-- A UTF-8 continuation byte. -/
def isContinuation (b : UInt8) : Bool := 0x80 ≤ b && b ≤ 0xBF

/-- The range of a second byte after the lead byte `b0`: the lead bytes that
would admit an overlong form, a surrogate or a value past `U+10FFFF` narrow it. -/
def isSecondByte (b0 b1 : UInt8) : Bool :=
  if b0 = 0xE0 then 0xA0 ≤ b1 && b1 ≤ 0xBF
  else if b0 = 0xED then 0x80 ≤ b1 && b1 ≤ 0x9F
  else if b0 = 0xF0 then 0x90 ≤ b1 && b1 ≤ 0xBF
  else if b0 = 0xF4 then 0x80 ≤ b1 && b1 ≤ 0x8F
  else isContinuation b1

/-- Well-formed UTF-8: what `str::from_utf8` accepts. -/
def validUtf8 : Bytes → Bool
  | [] => true
  | b0 :: rest =>
      if b0 < 0x80 then validUtf8 rest
      else match rest with
        | [] => false
        | b1 :: rest =>
            if 0xC2 ≤ b0 && b0 ≤ 0xDF then isContinuation b1 && validUtf8 rest
            else match rest with
              | [] => false
              | b2 :: rest =>
                  if 0xE0 ≤ b0 && b0 ≤ 0xEF then
                    isSecondByte b0 b1 && isContinuation b2 && validUtf8 rest
                  else match rest with
                    | [] => false
                    | b3 :: rest =>
                        0xF0 ≤ b0 && b0 ≤ 0xF4 && isSecondByte b0 b1 &&
                          isContinuation b2 && isContinuation b3 && validUtf8 rest

/-- `u8::to_ascii_lowercase` -/
def asciiLower (b : UInt8) : UInt8 := if 0x41 ≤ b && b ≤ 0x5A then b + 0x20 else b

/-- `u8::eq_ignore_ascii_case` -/
def eqIgnoreAsciiCase (a b : UInt8) : Bool := asciiLower a == asciiLower b

/-- Text as a `String`, for messages. -/
def textOf (bytes : Bytes) : String := (String.fromUTF8? ⟨bytes.toArray⟩).getD ""

end FastDns.Lib
