/-
Key tags (`compute_key_tag` in `src/dnssec/mod.rs`) as sums of words.

The loop adds a byte at a time to a 32-bit accumulator. With an overflow check at each
addition it ends all the same for every key that fits a record
(`computeKeyTagChecked_eq`), and what it has added up are the 16-bit words of the RDATA
(`byteSum_eq_wordSum`). So the tag is that of the stored RDATA, wherever the program
compares it (`computeKeyTag_exact`).
-/

import FastDns.Dns.RoundTrip
import FastDns.Dnssec.ChainOfTrust

namespace FastDns.Dnssec

open FastDns.Lib FastDns.Dns FastDns.Resolver

/-! ### The checked computation -/

/-- `+` on `u32`: a panic on overflow. -/
def checkedAdd (a b : UInt32) : Outcome Empty UInt32 :=
  if a.toNat + b.toNat < 2 ^ 32 then .ok (a + b) else .panic

/-- `compute_key_tag` with a check at each addition. -/
def computeKeyTagChecked (flags : UInt16) (protocol algorithm : UInt8) (publicKey : Bytes) :
    Outcome Empty UInt16 := do
  let ac ← (dnskeyRdata flags protocol algorithm publicKey).zipIdx.foldlM
    (fun ac (byte, i) =>
      if i % 2 = 0 then checkedAdd ac (byte.toUInt32 <<< 8) else checkedAdd ac byte.toUInt32) 0
  let ac ← checkedAdd ac ((ac >>> 16) &&& 0xffff)
  pure (ac &&& 0xffff).toUInt16

/-! ### The sum of words -/

/-- The big-endian 16-bit words of bytes of even number. -/
def beWords : Bytes → List Nat
  | high :: low :: rest => (256 * high.toNat + low.toNat) :: beWords rest
  | _ => []

/-- Bytes padded with one zero byte if their number is odd. -/
def padEven (bytes : Bytes) : Bytes := if bytes.length % 2 = 0 then bytes else bytes ++ [0]

/-- The sum of the words of bytes. -/
def wordSum (bytes : Bytes) : Nat := (beWords (padEven bytes)).sum

/-- The tag of an RDATA. -/
def keyTagOf (rdata : Bytes) : Nat := (wordSum rdata + wordSum rdata / 65536) % 65536

/-- What the loop adds up, from the index `i` on. -/
def byteSum : Nat → Bytes → Nat
  | _, [] => 0
  | i, byte :: rest => (if i % 2 = 0 then 256 * byte.toNat else byte.toNat) + byteSum (i + 1) rest

section Sums

variable {a b ac : UInt32} {i : Nat} {bytes : Bytes}

theorem wordSum_cons_cons (high low : UInt8) (rest : Bytes) :
    wordSum (high :: low :: rest) = 256 * high.toNat + low.toNat + wordSum rest := by
  have hpad : padEven (high :: low :: rest) = high :: low :: padEven rest := by
    rw [padEven, padEven, List.length_cons, List.length_cons]
    by_cases heven : rest.length % 2 = 0
    · rw [if_pos heven, if_pos (by omega)]
    · rw [if_neg heven, if_neg (by omega)]
      rfl
  rw [wordSum, hpad, beWords, List.sum_cons, wordSum]

/-- From an even index on, the bytes add up to the words. -/
theorem byteSum_eq_wordSum : ∀ (bytes : Bytes) {i : Nat}, i % 2 = 0 → byteSum i bytes = wordSum bytes
  | [], _, _ => rfl
  | [byte], i, heven => by
      have hword : wordSum [byte] = 256 * byte.toNat := rfl
      rw [byteSum, if_pos heven, byteSum, hword, Nat.add_zero]
  | high :: low :: rest, i, heven => by
      have hodd : ¬ (i + 1) % 2 = 0 := by omega
      have hrest : byteSum (i + 1 + 1) rest = wordSum rest :=
        byteSum_eq_wordSum rest (by omega)
      rw [byteSum, if_pos heven, byteSum, if_neg hodd, hrest, wordSum_cons_cons, Nat.add_assoc]

/-- No byte adds more than 65280. -/
theorem byteSum_le (i : Nat) (bytes : Bytes) : byteSum i bytes ≤ 65280 * bytes.length := by
  induction bytes generalizing i with
  | nil => exact Nat.zero_le _
  | cons byte rest ih =>
      have hbyte := byte.toNat_lt
      have hrest := ih (i + 1)
      rw [byteSum, List.length_cons]
      split <;> omega

theorem checkedAdd_eq (h : a.toNat + b.toNat < 2 ^ 32) :
    checkedAdd a b = .ok (a + b) ∧ (a + b).toNat = a.toNat + b.toNat := by
  refine ⟨if_pos h, ?_⟩
  rw [UInt32.toNat_add]
  exact Nat.mod_eq_of_lt h

/-- What a byte at an index adds to the accumulator. -/
def keyTagTerm (byte : UInt8) (i : Nat) : UInt32 :=
  if i % 2 = 0 then byte.toUInt32 <<< 8 else byte.toUInt32

theorem toNat_keyTagTerm (byte : UInt8) (i : Nat) :
    (keyTagTerm byte i).toNat = if i % 2 = 0 then 256 * byte.toNat else byte.toNat := by
  unfold keyTagTerm
  split
  · have hbyte := byte.toNat_lt
    have height : (8 : UInt32).toNat % 32 = 8 := by decide
    rw [UInt32.toNat_shiftLeft, UInt8.toNat_toUInt32, height, Nat.shiftLeft_eq]
    omega
  · exact UInt8.toNat_toUInt32 byte

/-- The branches of the loop differ in the term only. -/
theorem ite_keyTagTerm {α : Type} (f : UInt32 → α) (byte : UInt8) (i : Nat) :
    (if i % 2 = 0 then f (byte.toUInt32 <<< 8) else f byte.toUInt32) = f (keyTagTerm byte i) :=
  (apply_ite f _ _ _).symm

/-- **The loop does not overflow** while the sum of its terms fits, and then it has
added them up. -/
theorem accumulate_eq (h : ac.toNat + byteSum i bytes < 2 ^ 32) :
    (bytes.zipIdx i).foldlM (fun ac (byte, i) =>
        if i % 2 = 0 then checkedAdd ac (byte.toUInt32 <<< 8)
        else checkedAdd ac byte.toUInt32) ac =
      .ok ((bytes.zipIdx i).foldl (fun ac (byte, i) =>
        if i % 2 = 0 then ac + (byte.toUInt32 <<< 8) else ac + byte.toUInt32) ac) ∧
    ((bytes.zipIdx i).foldl (fun ac (byte, i) =>
        if i % 2 = 0 then ac + (byte.toUInt32 <<< 8) else ac + byte.toUInt32) ac).toNat =
      ac.toNat + byteSum i bytes := by
  induction bytes generalizing i ac with
  | nil => exact ⟨rfl, rfl⟩
  | cons byte rest ih =>
      rw [byteSum, ← toNat_keyTagTerm] at h ⊢
      have hroom : ac.toNat + (keyTagTerm byte i).toNat < 2 ^ 32 := by omega
      obtain ⟨hadd, hsum⟩ := checkedAdd_eq hroom
      have hfits : (ac + keyTagTerm byte i).toNat + byteSum (i + 1) rest < 2 ^ 32 := by omega
      obtain ⟨hloop, hvalue⟩ := ih hfits
      rw [List.zipIdx_cons, List.foldlM_cons, List.foldl_cons]
      dsimp only
      rw [ite_keyTagTerm (checkedAdd ac), ite_keyTagTerm (ac + ·), hadd, Outcome.ok_bind]
      refine ⟨hloop, hvalue.trans ?_⟩
      rw [hsum, Nat.add_assoc]

end Sums

/-! ### The tag of a record -/

section Tag

variable {flags : UInt16} {protocol algorithm : UInt8} {publicKey : Bytes} {k : Dnskey}
  {r : ResourceRecord}

theorem length_dnskeyRdata :
    (dnskeyRdata flags protocol algorithm publicKey).length = publicKey.length + 4 := by
  rw [dnskeyRdata, List.length_append, length_u16ToBeBytes, List.length_cons, List.length_cons]
  omega

/-- The two halves of the accumulator are added and cut to 16 bits. -/
theorem toNat_folded {ac : UInt32} (h : ac.toNat ≤ 65280 * 65535) :
    checkedAdd ac ((ac >>> 16) &&& 0xffff) = .ok (ac + ((ac >>> 16) &&& 0xffff)) ∧
      ((ac + ((ac >>> 16) &&& 0xffff)) &&& 0xffff).toUInt16.toNat =
        (ac.toNat + ac.toNat / 65536) % 65536 := by
  have hmask : ∀ x : UInt32, (x &&& 0xffff).toNat = x.toNat % 65536 := by
    intro x
    have hlow : (0xffff : UInt32).toNat = 2 ^ 16 - 1 := by decide
    rw [UInt32.toNat_and, hlow, Nat.and_two_pow_sub_one_eq_mod]
  have hhigh : ((ac >>> 16) &&& 0xffff).toNat = ac.toNat / 65536 := by
    have hsixteen : (16 : UInt32).toNat % 32 = 16 := by decide
    rw [hmask, UInt32.toNat_shiftRight, hsixteen, Nat.shiftRight_eq_div_pow]
    omega
  have hroom : ac.toNat + ((ac >>> 16) &&& 0xffff).toNat < 2 ^ 32 := by omega
  obtain ⟨hadd, hsum⟩ := checkedAdd_eq hroom
  refine ⟨hadd, ?_⟩
  rw [UInt32.toNat_toUInt16, hmask, hsum, hhigh, Nat.mod_mod]

/-- No addition overflows, and the tag is that of the RDATA. -/
theorem computeKeyTag_eq (hkey : publicKey.length ≤ 65531) :
    computeKeyTagChecked flags protocol algorithm publicKey =
        .ok (computeKeyTag flags protocol algorithm publicKey) ∧
      (computeKeyTag flags protocol algorithm publicKey).toNat =
        keyTagOf (dnskeyRdata flags protocol algorithm publicKey) := by
  have hlength : (dnskeyRdata flags protocol algorithm publicKey).length = publicKey.length + 4 :=
    length_dnskeyRdata
  unfold computeKeyTagChecked computeKeyTag
  generalize dnskeyRdata flags protocol algorithm publicKey = rdata at hlength
  have hbound := byteSum_le 0 rdata
  have hsum : byteSum 0 rdata ≤ 65280 * 65535 := by omega
  have hfits : (0 : UInt32).toNat + byteSum 0 rdata < 2 ^ 32 := by
    rw [UInt32.toNat_zero]
    omega
  obtain ⟨hloop, hvalue⟩ := accumulate_eq hfits
  rw [UInt32.toNat_zero, Nat.zero_add] at hvalue
  obtain ⟨hadd, htag⟩ := toNat_folded (hvalue.trans_le hsum)
  rw [hvalue, byteSum_eq_wordSum rdata rfl] at htag
  rw [hloop, Outcome.ok_bind, hadd]
  exact ⟨rfl, htag⟩

/-- A key record with the RDATA of its key, as it comes from a message. -/
structure StoredKey (r : ResourceRecord) (k : Dnskey) : Prop where
  parsed : r.parsed = some (.dnskey k)
  rdata : r.rdata = dnskeyRdata k.flags k.protocol k.algorithm k.publicKey
  short : k.publicKey.length ≤ 65531

/-- What is read from a message is stored so. -/
theorem storedKey_of_fromBytes {data : Bytes} {offset next : Nat}
    (hread : ResourceRecord.fromBytes data offset = .ok (r, next))
    (hk : r.parsed = some (.dnskey k)) : StoredKey r k := by
  obtain ⟨n, e, parsed, _, _, hparsed, rfl, _⟩ := record_eq_ok.mp hread
  obtain rfl : parsed = some (.dnskey k) := hk
  have hraw : (rawRdataAt data e).length ≤ 65535 :=
    (List.length_take_le _ _).trans (Nat.le_of_lt_succ (u16At data (e + 8)).toNat_lt)
  have hreads := readsAs_of_parseRdata hparsed
  generalize u16At data e = rtype at hreads
  refine ⟨rfl, ?_, ?_⟩
  · change u16ToBeBytes k.flags ++ [k.protocol, k.algorithm] ++ k.publicKey = _
    rw [dnskeyRdata, List.append_assoc]
    rfl
  · cases hreads with
    | dnskey _ hpublic =>
        rw [hpublic, List.length_drop]
        omega

theorem StoredKey.toNat_tag (h : StoredKey r k) :
    (computeKeyTag k.flags k.protocol k.algorithm k.publicKey).toNat = keyTagOf r.rdata := by
  rw [h.rdata, (computeKeyTag_eq h.short).2]

/-- A comparison with the tag is one with that of the stored RDATA. -/
theorem StoredKey.tag_eq_iff (h : StoredKey r k) (tag : UInt16) :
    computeKeyTag k.flags k.protocol k.algorithm k.publicKey = tag ↔
      keyTagOf r.rdata = tag.toNat := by
  rw [← h.toNat_tag, UInt16.toNat_inj]

/-- The comparison in `rrsig_verified_by`. -/
theorem StoredKey.rrsigVerifiedBy_eq (h : StoredKey r k) {rrsig : ResourceRecord} {s : Rrsig}
    (hs : rrsig.parsed = some (.rrsig s)) (rrset : List ResourceRecord) :
    rrsigVerifiedBy rrsig r rrset =
      if k.algorithm = s.algorithm ∧ keyTagOf r.rdata = s.keyTag.toNat then do
        let world ← Run.read
        let now ← readSystemTime
        pure (isRrsigTimeValid now s.signatureExpiration s.signatureInception &&
          verifySignature world.crypto s.algorithm k.publicKey (buildSignedData rrsig rrset)
            s.signature)
      else pure false := by
  unfold rrsigVerifiedBy
  rw [hs, h.parsed]
  simp only [h.tag_eq_iff]

/-- The comparison in `verify_ds`. -/
theorem StoredKey.verifyDs_iff (h : StoredKey r k) {ds : ResourceRecord} {d : Ds}
    (hd : ds.parsed = some (.ds d)) (crypto : Crypto) (owner : Bytes) :
    verifyDs crypto ds r owner = true ↔
      keyTagOf r.rdata = d.keyTag.toNat ∧ k.algorithm = d.algorithm ∧
        (d.digestType = 2 ∧ crypto.sha256 (nameToWire owner ++ r.rdata) = d.digest ∨
          d.digestType = 4 ∧ crypto.sha384 (nameToWire owner ++ r.rdata) = d.digest) := by
  unfold verifyDs
  rw [hd, h.parsed]
  simp only [ne_eq, h.tag_eq_iff, ← h.rdata]
  by_cases hmatch : keyTagOf r.rdata = d.keyTag.toNat ∧ k.algorithm = d.algorithm
  · obtain ⟨htag, halgorithm⟩ := hmatch
    rw [if_neg (by simp [htag, halgorithm])]
    simp only [htag, halgorithm, true_and]
    by_cases htwo : d.digestType = 2
    · simp [htwo]
    · by_cases hfour : d.digestType = 4
      · simp [hfour]
      · simp [htwo, hfour]
  · rw [if_pos (not_and_or.mp hmatch)]
    refine iff_of_false nofun fun hall => hmatch ⟨hall.1, hall.2.1⟩

/-- The comparison in the key loop of `validate_rrset`. -/
theorem StoredKey.keyVerifies_iff (h : StoredKey r k) (crypto : Crypto) (s : Rrsig)
    (signedData : Bytes) :
    keyVerifies crypto s signedData r = true ↔
      k.algorithm = s.algorithm ∧ keyTagOf r.rdata = s.keyTag.toNat ∧
        verifySignature crypto s.algorithm k.publicKey signedData s.signature = true := by
  unfold keyVerifies
  rw [h.parsed]
  simp only [h.tag_eq_iff, Bool.and_eq_true, decide_eq_true_eq, and_assoc]

end Tag

/-- **`compute_key_tag` is exact.** No addition overflows for a key that fits a record,
the result is the folded sum of the words of the RDATA, and so the tag of the stored
RDATA, which is what all three checks of a key compare. -/
theorem computeKeyTag_exact (k : Dnskey) (hkey : k.publicKey.length ≤ 65531) :
    computeKeyTagChecked k.flags k.protocol k.algorithm k.publicKey =
        .ok (computeKeyTag k.flags k.protocol k.algorithm k.publicKey) ∧
      (computeKeyTag k.flags k.protocol k.algorithm k.publicKey).toNat =
        (wordSum (dnskeyRdata k.flags k.protocol k.algorithm k.publicKey) +
          wordSum (dnskeyRdata k.flags k.protocol k.algorithm k.publicKey) / 65536) % 65536 ∧
      ∀ data offset r next, ResourceRecord.fromBytes data offset = .ok (r, next) →
        r.parsed = some (.dnskey k) →
        (computeKeyTag k.flags k.protocol k.algorithm k.publicKey).toNat = keyTagOf r.rdata ∧
          (∀ rrsig s rrset, rrsig.parsed = some (.rrsig s) →
            rrsigVerifiedBy rrsig r rrset =
              if k.algorithm = s.algorithm ∧ keyTagOf r.rdata = s.keyTag.toNat then do
                let world ← Run.read
                let now ← readSystemTime
                pure (isRrsigTimeValid now s.signatureExpiration s.signatureInception &&
                  verifySignature world.crypto s.algorithm k.publicKey
                    (buildSignedData rrsig rrset) s.signature)
              else pure false) ∧
          (∀ crypto ds d owner, ds.parsed = some (.ds d) →
            (verifyDs crypto ds r owner = true ↔
              keyTagOf r.rdata = d.keyTag.toNat ∧ k.algorithm = d.algorithm ∧
                (d.digestType = 2 ∧ crypto.sha256 (nameToWire owner ++ r.rdata) = d.digest ∨
                  d.digestType = 4 ∧ crypto.sha384 (nameToWire owner ++ r.rdata) = d.digest))) ∧
          ∀ crypto now rrsig s records, rrsig.parsed = some (.rrsig s) →
            (validateRrset crypto now rrsig records [r] = .secure ↔
              isRrsigTimeValid now s.signatureExpiration s.signatureInception = true ∧
                k.algorithm = s.algorithm ∧ keyTagOf r.rdata = s.keyTag.toNat ∧
                  verifySignature crypto s.algorithm k.publicKey (buildSignedData rrsig records)
                    s.signature = true) := by
  obtain ⟨hchecked, hvalue⟩ := computeKeyTag_eq hkey
  refine ⟨hchecked, hvalue, fun data offset r next hread hk => ?_⟩
  have hstored := storedKey_of_fromBytes hread hk
  refine ⟨hstored.toNat_tag, fun rrsig s rrset hs => hstored.rrsigVerifiedBy_eq hs rrset,
    fun crypto ds d owner hd => hstored.verifyDs_iff hd crypto owner,
    fun crypto now rrsig s records hs => ?_⟩
  rw [validateRrset_of_parsed hs, ← hstored.keyVerifies_iff]
  simp only [List.mem_singleton, exists_eq_left]

/-- The tag of the root key of 2017. -/
theorem computeKeyTag_root :
    computeKeyTagChecked 257 3 8 rootKsk2017PublicKey = .ok 20326 := by
  have hexact := computeKeyTag_exact ⟨257, 3, 8, rootKsk2017PublicKey⟩ (by decide +kernel)
  have htag : computeKeyTag 257 3 8 rootKsk2017PublicKey = 20326 := by
    rw [← UInt16.toNat_inj, hexact.2.1]
    decide +kernel
  rw [hexact.1, htag]

end FastDns.Dnssec
