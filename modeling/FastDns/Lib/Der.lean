/-
Natural numbers in DER: the tag, the length and the contents of a value, read by the
rules of the encoding.

A length has the fewest octets possible, and so has an INTEGER, whose first bit is
its sign. `readNats` reads a SEQUENCE of two INTEGERs with nothing behind it. The
contents of an INTEGER are settled by the number (`eq_of_value_eq`).
-/

import FastDns.Lib.Bytes
import Mathlib.Data.Nat.Digits.Defs

namespace FastDns.Lib

/-- The number that the bytes are, the highest one in front. -/
def value (bytes : Bytes) : Nat := Nat.ofDigits 256 (bytes.reverse.map UInt8.toNat)

@[simp] theorem value_nil : value [] = 0 := rfl

@[simp] theorem value_zero_cons (bytes : Bytes) : value (0 :: bytes) = value bytes := by
  rw [value, List.reverse_cons, List.map_append]
  exact Nat.ofDigits_append_zero _

/-- Without zeros in front, the bytes are the digits of the number. -/
theorem digits_value {bytes : Bytes} (h : bytes.head? ≠ some 0) :
    Nat.digits 256 (value bytes) = bytes.reverse.map UInt8.toNat := by
  refine Nat.digits_ofDigits 256 (by omega) _ (fun digit hdigit => ?_) fun hne => ?_
  · obtain ⟨b, _, rfl⟩ := List.mem_map.mp hdigit
    exact b.toNat_lt
  · cases bytes with
    | nil => exact absurd rfl hne
    | cons b rest =>
        rw [List.head?_cons, ne_eq, Option.some.injEq] at h
        simpa [← UInt8.toNat_inj] using h

theorem eq_of_value_eq {bytes bytes' : Bytes} (h : bytes.head? ≠ some 0)
    (h' : bytes'.head? ≠ some 0) (hvalue : value bytes = value bytes') : bytes = bytes' := by
  have hdigits := digits_value h
  rw [hvalue, digits_value h'] at hdigits
  have hsame := (List.map_inj_right fun _ _ => UInt8.toNat_inj.mp).mp hdigits
  exact (List.reverse_inj.mp hsame).symm

namespace Der

/-- The length in front of the contents. The long form says how many octets the
length has; neither it nor its first octet may be less than need be. -/
def readLength : Bytes → Option (Nat × Bytes)
  | [] => none
  | first :: rest =>
      if first.toNat < 128 then some (first.toNat, rest)
      else
        let octets := rest.take (first.toNat - 128)
        if octets.length = first.toNat - 128 ∧ octets.head? ≠ some 0 ∧ 128 ≤ value octets then
          some (value octets, rest.drop (first.toNat - 128))
        else none

/-- A value with this tag: its contents, and what comes behind. -/
def readValue (tag : UInt8) : Bytes → Option (Bytes × Bytes)
  | [] => none
  | first :: rest =>
      if first = tag then
        match readLength rest with
        | some (length, rest) =>
            if length ≤ rest.length then some (rest.take length, rest.drop length) else none
        | none => none
      else none

/-- The contents of an INTEGER that is not negative, without an octet to spare. -/
def Minimal (contents : Bytes) : Prop :=
  match contents with
  | [] => False
  | [first] => first.toNat < 128
  | first :: second :: _ => first.toNat < 128 ∧ (first = 0 → 128 ≤ second.toNat)

instance (contents : Bytes) : Decidable (Minimal contents) := by
  unfold Minimal
  split <;> infer_instance

/-- An INTEGER that is not negative. -/
def readNat (data : Bytes) : Option (Nat × Bytes) :=
  match readValue 0x02 data with
  | some (contents, rest) => if Minimal contents then some (value contents, rest) else none
  | none => none

/-- A SEQUENCE of two INTEGERs, and nothing else. -/
def readNats (data : Bytes) : Option (Nat × Nat) :=
  match readValue 0x30 data with
  | some (contents, []) =>
      match readNat contents with
      | some (first, rest) =>
          match readNat rest with
          | some (second, []) => some (first, second)
          | _ => none
      | none => none
  | _ => none

end Der

end FastDns.Lib
