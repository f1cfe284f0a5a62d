/-
RSA public keys (`src/dnssec/mod.rs`: `verify_rsa_sha256`, `rsa_dnskey_to_der`,
`asn1_integer`, `asn1_length`).

A DNSKEY record has the exponent behind its length, and then the modulus. The code
has two ways to hand them on: as they are, or as a DER value. Read by the rules of
DER, that value has the very numbers, as long as its contents are shorter than 65536
octets; `asn1_length` cuts off the rest of a length (`rsa_der_round_trip`). The
value depends on the numbers alone (`rsa_der_eq_iff`).
-/

import FastDns.Dnssec.Validate
import FastDns.Lib.Der
import Mathlib.Data.Nat.Bitwise

namespace FastDns.Dnssec

open FastDns.Lib

/-! ### The key of a DNSKEY record -/

/-- The exponent, whose length and place are known, and the modulus behind it. -/
def splitKey (publicKey : Bytes) (expLen expStart : Nat) : Option (Bytes × Bytes) :=
  if publicKey.length < expStart + expLen then none
  else
    let exponent := (publicKey.drop expStart).take expLen
    let modulus := publicKey.drop (expStart + expLen)
    if modulus = [] then none else some (exponent, modulus)

/-- The exponent and the modulus, as both functions take them from the key. -/
def rsaComponents (publicKey : Bytes) : Option (Bytes × Bytes) :=
  if publicKey = [] then none
  else if publicKey.getD 0 0 = 0 then
    if publicKey.length < 3 then none else splitKey publicKey (u16At publicKey 1).toNat 3
  else splitKey publicKey (publicKey.getD 0 0).toNat 1

/-- `asn1_length` -/
def asn1Length (len : Nat) : Bytes :=
  if len < 128 then [UInt8.ofNat len]
  else if len < 256 then [0x81, UInt8.ofNat len]
  else [0x82, UInt8.ofNat (len >>> 8), UInt8.ofNat (len &&& 0xff)]

/-- `stripped` in `asn1_integer` -/
def stripZeros (bytes : Bytes) : Bytes :=
  match bytes.findIdx? (· ≠ 0) with
  | some pos => bytes.drop pos
  | none => [0]

/-- The octets behind the length in `asn1_integer`. -/
def asn1Contents (bytes : Bytes) : Bytes :=
  let stripped := stripZeros bytes
  let needsPad := stripped.getD 0 0 &&& 0x80 ≠ 0
  (if needsPad then [0x00] else []) ++ stripped

/-- `asn1_integer` -/
def asn1Integer (bytes : Bytes) : Bytes :=
  0x02 :: (asn1Length (asn1Contents bytes).length ++ asn1Contents bytes)

/-- `rsa_dnskey_to_der` -/
def rsaDnskeyToDer (publicKey : Bytes) : Option Bytes := do
  let (exponent, modulus) ← rsaComponents publicKey
  let modDer := asn1Integer modulus
  let expDer := asn1Integer exponent
  let seqContentLen := modDer.length + expDer.length
  some (0x30 :: (asn1Length seqContentLen ++ modDer ++ expDer))

/-! ### Lengths -/

section Length

variable {len : Nat} {rest : Bytes}

theorem value_singleton (b : UInt8) : value [b] = b.toNat := Nat.ofDigits_singleton

theorem value_pair (a b : UInt8) : value [a, b] = a.toNat * 256 + b.toNat := by
  simp [value, Nat.ofDigits_cons]
  omega

theorem asn1Length_short (h : len < 128) :
    Der.readLength (asn1Length len ++ rest) = some (len, rest) := by
  rw [asn1Length, if_pos h]
  have hlen : (UInt8.ofNat len).toNat = len := by
    rw [UInt8.toNat_ofNat']
    omega
  simp [Der.readLength, hlen, h]

theorem asn1Length_middle (h : 128 ≤ len) (hlt : len < 256) :
    Der.readLength (asn1Length len ++ rest) = some (len, rest) := by
  have hlen : (UInt8.ofNat len).toNat = len := by
    rw [UInt8.toNat_ofNat']
    omega
  have hzero : UInt8.ofNat len ≠ 0 := by
    intro hzero
    rw [hzero] at hlen
    exact absurd hlen (by rw [UInt8.toNat_zero]; omega)
  rw [asn1Length, if_neg (by omega), if_pos hlt]
  simp [Der.readLength, value_singleton, hlen, h, hzero]

/-- From 256 on, what is read is the length without its higher bits. -/
theorem asn1Length_long (h : 256 ≤ len) : Der.readLength (asn1Length len ++ rest) =
    if 256 ≤ len % 65536 then some (len % 65536, rest) else none := by
  have hhigh : (UInt8.ofNat (len >>> 8)).toNat = len % 65536 / 256 := by
    rw [UInt8.toNat_ofNat', Nat.shiftRight_eq_div_pow]
    omega
  have hlow : (UInt8.ofNat (len &&& 0xff)).toNat = len % 256 := by
    rw [UInt8.toNat_ofNat', Nat.and_two_pow_sub_one_eq_mod len 8]
    omega
  have hvalue : value [UInt8.ofNat (len >>> 8), UInt8.ofNat (len &&& 0xff)] = len % 65536 := by
    rw [value_pair, hhigh, hlow]
    omega
  have hzero : UInt8.ofNat (len >>> 8) ≠ 0 ↔ 256 ≤ len % 65536 := by
    rw [ne_eq, ← UInt8.toNat_inj, hhigh, UInt8.toNat_zero]
    omega
  rw [asn1Length, if_neg (by omega), if_neg (by omega)]
  generalize UInt8.ofNat (len >>> 8) = high at hvalue hzero ⊢
  generalize UInt8.ofNat (len &&& 0xff) = low at hvalue
  have hread : Der.readLength ([0x82, high, low] ++ rest) =
      if high ≠ 0 ∧ 128 ≤ len % 65536 then some (len % 65536, rest) else none := by
    simp [Der.readLength, hvalue]
  rw [hread]
  refine if_congr ?_ rfl rfl
  rw [hzero]
  omega

/-- A length below 65536 is read back. -/
theorem readLength_fits (h : len < 65536) :
    Der.readLength (asn1Length len ++ rest) = some (len, rest) := by
  by_cases hshort : len < 128
  · exact asn1Length_short hshort
  · by_cases hmiddle : len < 256
    · exact asn1Length_middle (Nat.le_of_not_lt hshort) hmiddle
    · rw [asn1Length_long (Nat.le_of_not_lt hmiddle), Nat.mod_eq_of_lt h,
        if_pos (Nat.le_of_not_lt hmiddle)]

/-- What is read of a larger one is less. -/
theorem readLength_cut (h : 65536 ≤ len) {found : Nat × Bytes}
    (hread : Der.readLength (asn1Length len ++ rest) = some found) :
    found.1 < len ∧ found.2 = rest := by
  rw [asn1Length_long (by omega)] at hread
  split at hread
  · cases hread
    exact ⟨by omega, rfl⟩
  · cases hread

end Length

/-! ### Values -/

section Values

variable {tag : UInt8} {contents : Bytes}

theorem readValue_fits (tag : UInt8) (h : contents.length < 65536) (rest : Bytes) :
    Der.readValue tag (tag :: (asn1Length contents.length ++ contents ++ rest)) =
      some (contents, rest) := by
  rw [List.append_assoc]
  simp [Der.readValue, readLength_fits h]

/-- Where the length was cut, octets are left over. -/
theorem readValue_cut (h : 65536 ≤ contents.length) (found : Bytes) :
    Der.readValue tag (tag :: (asn1Length contents.length ++ contents)) ≠ some (found, []) := by
  intro hread
  rw [Der.readValue, if_pos rfl] at hread
  cases hlength : Der.readLength (asn1Length contents.length ++ contents) with
  | none =>
      rw [hlength] at hread
      cases hread
  | some header =>
      obtain ⟨hless, hrest⟩ := readLength_cut h hlength
      rw [hlength] at hread
      obtain ⟨length, behind⟩ := header
      dsimp only at hread hless hrest
      subst hrest
      split at hread
      · injection hread with hpair
        injection hpair with _ hempty
        have hlen := congrArg List.length hempty
        rw [List.length_drop, List.length_nil] at hlen
        omega
      · cases hread

end Values

/-! ### Integers -/

section Integers

variable {bytes bytes' : Bytes}

@[simp] theorem stripZeros_nil : stripZeros [] = [0] := rfl

@[simp] theorem stripZeros_zero_cons (bytes : Bytes) :
    stripZeros (0 :: bytes) = stripZeros bytes := by
  unfold stripZeros
  rw [List.findIdx?_cons]
  cases bytes.findIdx? (· ≠ 0) with
  | none => rfl
  | some pos => rfl

theorem stripZeros_cons {b : UInt8} (hb : b ≠ 0) (bytes : Bytes) :
    stripZeros (b :: bytes) = b :: bytes := by
  unfold stripZeros
  rw [List.findIdx?_cons]
  simp [hb]

theorem value_stripZeros (bytes : Bytes) : value (stripZeros bytes) = value bytes := by
  induction bytes with
  | nil => rfl
  | cons b bytes ih =>
      by_cases hb : b = 0
      · rw [hb, stripZeros_zero_cons, value_zero_cons, ih]
      · rw [stripZeros_cons hb]

/-- Without the zeros in front, the bytes are those of the number 0, or do not begin
with 0. -/
theorem stripZeros_normal (bytes : Bytes) :
    stripZeros bytes = [0] ∨ ∃ b rest, stripZeros bytes = b :: rest ∧ b ≠ 0 := by
  induction bytes with
  | nil => exact .inl rfl
  | cons b bytes ih =>
      by_cases hb : b = 0
      · rwa [hb, stripZeros_zero_cons]
      · exact .inr ⟨b, bytes, stripZeros_cons hb bytes, hb⟩

theorem and_0x80_ne_zero {b : UInt8} : b &&& 0x80 ≠ 0 ↔ 128 ≤ b.toNat := by
  have hlt := b.toNat_lt
  have hand : (b &&& 0x80).toNat = (b.toNat.testBit 7).toNat * 128 :=
    Nat.and_two_pow b.toNat 7
  rw [ne_eq, ← UInt8.toNat_inj, hand, Nat.testBit_eq_decide_div_mod_eq, UInt8.toNat_zero]
  by_cases hbit : b.toNat / 2 ^ 7 % 2 = 1
  · rw [decide_eq_true hbit, Bool.toNat_true]
    omega
  · rw [decide_eq_false hbit, Bool.toNat_false]
    omega

theorem asn1Contents_of_strip {b : UInt8} {rest : Bytes} (hstrip : stripZeros bytes = b :: rest) :
    asn1Contents bytes = if 128 ≤ b.toNat then 0 :: b :: rest else b :: rest := by
  unfold asn1Contents
  rw [hstrip]
  simp only [List.getD_cons_zero, and_0x80_ne_zero]
  split <;> rfl

/-- The contents are those of an INTEGER, and of the number. -/
theorem asn1Contents_minimal (bytes : Bytes) :
    Der.Minimal (asn1Contents bytes) ∧ value (asn1Contents bytes) = value bytes := by
  have hvalue := value_stripZeros bytes
  obtain hzero | ⟨b, rest, hstrip, hb⟩ := stripZeros_normal bytes
  · rw [asn1Contents_of_strip hzero]
    rw [hzero] at hvalue
    exact ⟨by decide, hvalue⟩
  · rw [asn1Contents_of_strip hstrip]
    rw [hstrip] at hvalue
    split
    · rename_i hhigh
      refine ⟨⟨by decide, fun _ => hhigh⟩, ?_⟩
      rw [value_zero_cons, hvalue]
    · rename_i hlow
      refine ⟨?_, hvalue⟩
      cases rest with
      | nil => exact Nat.lt_of_not_le hlow
      | cons second rest => exact ⟨Nat.lt_of_not_le hlow, fun hzero => absurd hzero hb⟩

theorem readNat_asn1Integer (bytes : Bytes) (h : (asn1Contents bytes).length < 65536)
    (rest : Bytes) :
    Der.readNat (asn1Integer bytes ++ rest) = some (value bytes, rest) := by
  obtain ⟨hminimal, hvalue⟩ := asn1Contents_minimal bytes
  have hread : Der.readValue 0x02 (asn1Integer bytes ++ rest) =
      some (asn1Contents bytes, rest) := readValue_fits 0x02 h rest
  rw [Der.readNat, hread]
  simp [hminimal, hvalue]

/-- The same number has the same contents. -/
theorem stripZeros_eq_iff : stripZeros bytes = stripZeros bytes' ↔ value bytes = value bytes' := by
  constructor
  · intro h
    rw [← value_stripZeros bytes, h, value_stripZeros]
  · -- A number that is not 0 has a digit in front that is not 0.
    have hpos : ∀ {b rest}, b ≠ 0 → value (b :: rest) ≠ 0 := by
      intro b rest hb hzero
      have hdigits := digits_value (show (b :: rest).head? ≠ some 0 by simpa using hb)
      rw [hzero] at hdigits
      simp at hdigits
    intro h
    rw [← value_stripZeros bytes, ← value_stripZeros bytes'] at h
    obtain hzero | ⟨b, rest, hstrip, hb⟩ := stripZeros_normal bytes
    · obtain hzero' | ⟨b', rest', hstrip', hb'⟩ := stripZeros_normal bytes'
      · rw [hzero, hzero']
      · rw [hzero, hstrip'] at h
        exact absurd h.symm (hpos hb')
    · obtain hzero' | ⟨b', rest', hstrip', hb'⟩ := stripZeros_normal bytes'
      · rw [hstrip, hzero'] at h
        exact absurd h (hpos hb)
      · rw [hstrip, hstrip'] at h ⊢
        exact eq_of_value_eq (by simpa using hb) (by simpa using hb') h

theorem asn1Integer_of_value (h : value bytes = value bytes') :
    asn1Integer bytes = asn1Integer bytes' := by
  unfold asn1Integer asn1Contents
  rw [stripZeros_eq_iff.mpr h]

theorem length_asn1Contents_lt (bytes : Bytes) :
    (asn1Contents bytes).length < (asn1Integer bytes).length := by
  simp only [asn1Integer, List.length_cons, List.length_append]
  omega

end Integers

/-! ### Keys -/

section Components

variable {publicKey exponent modulus : Bytes}

theorem splitKey_eq_some {expLen expStart : Nat} :
    splitKey publicKey expLen expStart = some (exponent, modulus) ↔
      modulus ≠ [] ∧ publicKey.drop expStart = exponent ++ modulus ∧
        exponent.length = expLen := by
  unfold splitKey
  dsimp only
  constructor
  · intro h
    split at h
    · cases h
    · split at h
      · cases h
      · cases h
        refine ⟨by assumption, ?_, ?_⟩
        · rw [← List.drop_drop, List.take_append_drop]
        · rw [List.length_take, List.length_drop]
          omega
  · rintro ⟨hne, hdrop, rfl⟩
    have hlen := congrArg List.length hdrop
    have hpos := List.length_pos_iff.mpr hne
    rw [List.length_drop, List.length_append] at hlen
    rw [if_neg (by omega), ← List.drop_drop, hdrop, List.drop_left, if_neg hne, List.take_left]

theorem rsaComponents_short {first : UInt8} (hfirst : first ≠ 0) (rest : Bytes) :
    rsaComponents (first :: rest) = some (exponent, modulus) ↔
      modulus ≠ [] ∧ rest = exponent ++ modulus ∧ exponent.length = first.toNat := by
  rw [rsaComponents, if_neg (List.cons_ne_nil _ _), List.getD_cons_zero, if_neg hfirst]
  exact splitKey_eq_some

theorem rsaComponents_long (high low : UInt8) (rest : Bytes) :
    rsaComponents (0 :: high :: low :: rest) = some (exponent, modulus) ↔
      modulus ≠ [] ∧ rest = exponent ++ modulus ∧
        exponent.length = (u16FromBeBytes high low).toNat := by
  rw [rsaComponents, if_neg (List.cons_ne_nil _ _), List.getD_cons_zero, if_pos rfl,
    if_neg (by simp)]
  exact splitKey_eq_some

/-- **The keys that are taken apart**: the exponent stands behind its length, of one
octet or, behind a 0, of two, and the rest is the modulus. -/
theorem rsaComponents_eq_some : rsaComponents publicKey = some (exponent, modulus) ↔
    modulus ≠ [] ∧
      (publicKey = UInt8.ofNat exponent.length :: (exponent ++ modulus) ∧
          0 < exponent.length ∧ exponent.length < 256 ∨
        publicKey = 0 :: (u16ToBeBytes (UInt16.ofNat exponent.length) ++ (exponent ++ modulus)) ∧
          exponent.length < 65536) := by
  constructor
  · intro h
    match publicKey with
    | [] => cases h
    | first :: rest =>
        by_cases hfirst : first = 0
        · subst hfirst
          match rest with
          | [] => cases h
          | [_] => cases h
          | high :: low :: rest =>
              obtain ⟨hne, rfl, hlen⟩ := (rsaComponents_long high low rest).mp h
              have hword := (u16FromBeBytes high low).toNat_lt
              refine ⟨hne, .inr ⟨?_, by omega⟩⟩
              rw [hlen, UInt16.ofNat_toNat, u16ToBeBytes_fromBeBytes]
              rfl
        · obtain ⟨hne, rfl, hlen⟩ := (rsaComponents_short hfirst rest).mp h
          have hpos : first.toNat ≠ 0 := fun hzero => hfirst (UInt8.toNat_inj.mp hzero)
          have hlt := first.toNat_lt
          refine ⟨hne, .inl ⟨?_, by omega, by omega⟩⟩
          rw [hlen, UInt8.ofNat_toNat]
  · rintro ⟨hne, ⟨rfl, hpos, hlt⟩ | ⟨rfl, hlt⟩⟩
    · have hlen : (UInt8.ofNat exponent.length).toNat = exponent.length := by
        rw [UInt8.toNat_ofNat']
        omega
      have hfirst : UInt8.ofNat exponent.length ≠ 0 := by
        intro hzero
        rw [hzero, UInt8.toNat_zero] at hlen
        omega
      exact (rsaComponents_short hfirst _).mpr ⟨hne, rfl, hlen.symm⟩
    · refine (rsaComponents_long _ _ _).mpr ⟨hne, rfl, ?_⟩
      rw [u16FromBeBytes_toBeBytes, UInt16.toNat_ofNat']
      omega

end Components

section Der

variable {publicKey publicKey' exponent exponent' modulus modulus' : Bytes}

/-- `rsa_dnskey_to_der` of a key with these components. -/
def derOf (exponent modulus : Bytes) : Bytes :=
  0x30 :: (asn1Length (asn1Integer modulus ++ asn1Integer exponent).length ++
    (asn1Integer modulus ++ asn1Integer exponent))

theorem rsaDnskeyToDer_eq (h : rsaComponents publicKey = some (exponent, modulus)) :
    rsaDnskeyToDer publicKey = some (derOf exponent modulus) := by
  rw [rsaDnskeyToDer, h, derOf, List.length_append, ← List.append_assoc]
  rfl

theorem readNats_fits
    (h : (asn1Integer modulus).length + (asn1Integer exponent).length < 65536) :
    Der.readNats (derOf exponent modulus) = some (value modulus, value exponent) := by
  have hmodulus := length_asn1Contents_lt modulus
  have hexponent := length_asn1Contents_lt exponent
  have hseq : Der.readValue 0x30 (derOf exponent modulus) =
      some (asn1Integer modulus ++ asn1Integer exponent, []) := by
    rw [← List.length_append] at h
    have hall := readValue_fits 0x30 h []
    rwa [List.append_nil] at hall
  have hsecond : Der.readNat (asn1Integer exponent) = some (value exponent, []) := by
    have hlast := readNat_asn1Integer exponent (by omega) []
    rwa [List.append_nil] at hlast
  rw [Der.readNats, hseq]
  simp [readNat_asn1Integer modulus (by omega), hsecond]

theorem fits_of_readNats {found : Nat × Nat}
    (h : Der.readNats (derOf exponent modulus) = some found) :
    (asn1Integer modulus).length + (asn1Integer exponent).length < 65536 := by
  rw [← List.length_append]
  by_contra hlarge
  unfold Der.readNats at h
  split at h
  · rename_i contents hvalue
    exact readValue_cut (Nat.le_of_not_lt hlarge) contents hvalue
  · cases h

/-- `verify_rsa_sha256` takes the key apart in the same way. -/
theorem verifyRsaSha256_of_components (h : rsaComponents publicKey = some (exponent, modulus))
    (crypto : Crypto) (signedData sig : Bytes) :
    verifyRsaSha256 crypto publicKey signedData sig =
      crypto.rsaSha256 modulus exponent signedData sig := by
  have htail : ∀ {expLen expStart}, splitKey publicKey expLen expStart = some (exponent, modulus) →
      ¬ publicKey.length < expStart + expLen ∧ (publicKey.drop expStart).take expLen = exponent ∧
        publicKey.drop (expStart + expLen) = modulus ∧ modulus.isEmpty = false := by
    intro expLen expStart hsplit
    obtain ⟨hne, hdrop, rfl⟩ := splitKey_eq_some.mp hsplit
    have hlen := congrArg List.length hdrop
    have hpos := List.length_pos_iff.mpr hne
    rw [List.length_drop, List.length_append] at hlen
    rw [← List.drop_drop, hdrop, List.take_left, List.drop_left]
    exact ⟨by omega, rfl, rfl, by simpa using hne⟩
  cases publicKey with
  | nil => cases h
  | cons first rest =>
      rw [rsaComponents, if_neg (List.cons_ne_nil _ _), List.getD_cons_zero] at h
      by_cases hfirst : first = 0
      · rw [if_pos hfirst] at h
        split at h
        · cases h
        · rename_i hlong
          obtain ⟨hfits, hexponent, hmodulus, hne⟩ := htail h
          rw [verifyRsaSha256, if_neg fun hboth => hlong hboth.2, if_pos hfirst]
          dsimp only
          rw [if_neg hfits, hexponent, hmodulus, hne, if_neg Bool.false_ne_true]
      · rw [if_neg hfirst] at h
        obtain ⟨hfits, hexponent, hmodulus, hne⟩ := htail h
        rw [verifyRsaSha256, if_neg fun hboth => hfirst hboth.1, if_neg hfirst]
        dsimp only
        rw [if_neg hfits, hexponent, hmodulus, hne, if_neg Bool.false_ne_true]

/-- **The DER value has the numbers of the key if and only if its contents are
shorter than 65536 octets**: the numbers that are verified with directly. The tags,
the lengths and the numbers are then as DER wants them, and nothing is left over. -/
theorem rsa_der_round_trip (h : rsaComponents publicKey = some (exponent, modulus)) :
    (∀ crypto signedData sig, verifyRsaSha256 crypto publicKey signedData sig =
      crypto.rsaSha256 modulus exponent signedData sig) ∧
    ∃ der, rsaDnskeyToDer publicKey = some der ∧
      (Der.readNats der = some (value modulus, value exponent) ↔
        (asn1Integer modulus).length + (asn1Integer exponent).length < 65536) :=
  ⟨verifyRsaSha256_of_components h, _, rsaDnskeyToDer_eq h, fits_of_readNats, readNats_fits⟩

/-- The exponent 65537 and a modulus with a 0 in front. -/
def sampleKey : Bytes := [3, 1, 0, 1, 0, 0xc5, 0x09]

theorem rsa_der_round_trip_sample :
    (∀ crypto signedData sig, verifyRsaSha256 crypto sampleKey signedData sig =
      crypto.rsaSha256 [0, 0xc5, 0x09] [1, 0, 1] signedData sig) ∧
    ∃ der, rsaDnskeyToDer sampleKey = some der ∧
      (Der.readNats der = some (value [0, 0xc5, 0x09], value [1, 0, 1]) ↔
        (asn1Integer [0, 0xc5, 0x09]).length + (asn1Integer [1, 0, 1]).length < 65536) :=
  rsa_der_round_trip rfl

/-- **The value depends on the numbers alone**: zeros in front of the exponent or the
modulus, and the form of the length, are gone. -/
theorem rsa_der_eq_iff (h : rsaComponents publicKey = some (exponent, modulus))
    (h' : rsaComponents publicKey' = some (exponent', modulus'))
    (hfits : (asn1Integer modulus).length + (asn1Integer exponent).length < 65536) :
    rsaDnskeyToDer publicKey = rsaDnskeyToDer publicKey' ↔
      value modulus = value modulus' ∧ value exponent = value exponent' := by
  rw [rsaDnskeyToDer_eq h, rsaDnskeyToDer_eq h', Option.some.injEq]
  constructor
  · intro hsame
    have hread := readNats_fits hfits
    rw [hsame] at hread
    rw [readNats_fits (fits_of_readNats hread)] at hread
    simpa [eq_comm] using hread
  · rintro ⟨hmodulus, hexponent⟩
    unfold derOf
    rw [asn1Integer_of_value hmodulus, asn1Integer_of_value hexponent]

theorem rsa_der_eq_iff_sample :
    rsaDnskeyToDer sampleKey = rsaDnskeyToDer [0, 0, 4, 0, 1, 0, 1, 0xc5, 0x09] ↔
      value [0, 0xc5, 0x09] = value [0xc5, 0x09] ∧ value [1, 0, 1] = value [0, 1, 0, 1] :=
  rsa_der_eq_iff rfl rfl (by decide)

end Der

end FastDns.Dnssec
