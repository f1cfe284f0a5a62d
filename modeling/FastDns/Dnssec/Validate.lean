/-
DNSSEC primitives (`src/dnssec/mod.rs`): key tags, canonical form, signatures
over an RRset, DS digests, trust anchors and the verdict on a denial.

The signature schemes and hash functions come from other crates; `Crypto` takes
them as parameters. Everything around them is embedded: which scheme is chosen,
how keys are taken apart, and which bytes are signed. The wall clock is a
parameter too, in seconds as a 32-bit number.
-/

import FastDns.Dns.Names
import Mathlib.Data.List.Sort

namespace FastDns.Dnssec

open FastDns.Lib FastDns.Dns

/-! ### Verdicts and primitives -/

/-- `ValidationResult` -/
inductive ValidationResult where
  | secure
  | insecure
  | bogus (reason : String)
  | indeterminate
deriving DecidableEq, Repr

/-- The functions of the cryptographic crates. -/
structure Crypto where
  /-- RSA PKCS#1 with SHA-256: modulus, exponent, data, signature. -/
  rsaSha256 : Bytes → Bytes → Bytes → Bytes → Bool
  /-- ECDSA with a signature of fixed size: uncompressed point, data, signature. -/
  ecdsaP256Fixed : Bytes → Bytes → Bytes → Bool
  /-- ECDSA with a DER signature. -/
  ecdsaP256Der : Bytes → Bytes → Bytes → Bool
  ecdsaP384Fixed : Bytes → Bytes → Bytes → Bool
  ecdsaP384Der : Bytes → Bytes → Bytes → Bool
  ed25519 : Bytes → Bytes → Bytes → Bool
  sha256 : Bytes → Bytes
  sha384 : Bytes → Bytes

/-- The RDATA of a DNSKEY record. -/
def dnskeyRdata (flags : UInt16) (protocol algorithm : UInt8) (publicKey : Bytes) : Bytes :=
  u16ToBeBytes flags ++ protocol :: algorithm :: publicKey

/-- `compute_key_tag`: the sum of all 16-bit words of the RDATA. -/
def computeKeyTag (flags : UInt16) (protocol algorithm : UInt8) (publicKey : Bytes) : UInt16 :=
  let ac : UInt32 := (dnskeyRdata flags protocol algorithm publicKey).zipIdx.foldl
    (fun ac (byte, i) => if i % 2 = 0 then ac + (byte.toUInt32 <<< 8) else ac + byte.toUInt32) 0
  let ac := ac + ((ac >>> 16) &&& 0xffff)
  (ac &&& 0xffff).toUInt16

/-- `verify_rsa_sha256`: the key is exponent length, exponent, modulus, with the
length in three bytes when the first one is zero. -/
def verifyRsaSha256 (crypto : Crypto) (publicKey signedData sig : Bytes) : Bool :=
  match publicKey with
  | [] => false
  | b0 :: _ =>
      if b0 = 0 ∧ publicKey.length < 3 then false
      else
        let (expLen, expStart) :=
          if b0 = 0 then ((u16At publicKey 1).toNat, 3) else (b0.toNat, 1)
        if publicKey.length < expStart + expLen then false
        else
          let exponent := (publicKey.drop expStart).take expLen
          let modulus := publicKey.drop (expStart + expLen)
          if modulus.isEmpty then false else crypto.rsaSha256 modulus exponent signedData sig

/-- `verify_ecdsa_p256` and `verify_ecdsa_p384`: a bare point of `size` bytes, or
one with the prefix `0x04` and then a DER signature. -/
def verifyEcdsa (fixed der : Bytes → Bytes → Bytes → Bool) (size : Nat)
    (publicKey signedData sig : Bytes) : Bool :=
  if publicKey.length ≠ size then
    if publicKey.length = size + 1 ∧ publicKey.head? = some 0x04 then der publicKey signedData sig
    else false
  else fixed (0x04 :: publicKey) signedData sig

def verifyEcdsaP256 (crypto : Crypto) : Bytes → Bytes → Bytes → Bool :=
  verifyEcdsa crypto.ecdsaP256Fixed crypto.ecdsaP256Der 64

def verifyEcdsaP384 (crypto : Crypto) : Bytes → Bytes → Bytes → Bool :=
  verifyEcdsa crypto.ecdsaP384Fixed crypto.ecdsaP384Der 96

/-- `verify_ed25519` -/
def verifyEd25519 (crypto : Crypto) (publicKey signedData sig : Bytes) : Bool :=
  publicKey.length = 32 && sig.length = 64 && crypto.ed25519 publicKey signedData sig

/-- `verify_signature` -/
def verifySignature (crypto : Crypto) (algorithm : UInt8) (publicKey signedData sig : Bytes) :
    Bool :=
  if algorithm = 8 then verifyRsaSha256 crypto publicKey signedData sig
  else if algorithm = 13 then verifyEcdsaP256 crypto publicKey signedData sig
  else if algorithm = 14 then verifyEcdsaP384 crypto publicKey signedData sig
  else if algorithm = 15 then verifyEd25519 crypto publicKey signedData sig
  else false

/-! ### Canonical form -/

/-- The loop of `name_to_wire`: the labels in lower case. -/
def lowerLabels : Nat → Bytes → Bytes
  | 0, encoded => encoded
  | _ + 1, [] => []
  | fuel + 1, len :: rest =>
      if len = 0 then len :: rest
      else len :: (rest.take len.toNat).map asciiLower ++ lowerLabels fuel (rest.drop len.toNat)

/-- `name_to_wire`: a name that cannot be encoded becomes the empty string. -/
def nameToWire (name : Bytes) : Bytes :=
  let encoded := match encodeDomainName name with
    | .ok encoded => encoded
    | _ => []
  lowerLabels encoded.length encoded

/-- `name_to_wire(&labels_to_string(..))` -/
def canonicalName (labels : Bytes) : Bytes := nameToWire (labelsToString labels)

/-- `record_rdata_canonical`; a type without a canonical form contributes no bytes. -/
def recordRdataCanonical (record : ResourceRecord) : Bytes :=
  match record.parsed with
  | some (.a ip) => ip.octets
  | some (.aaaa ip) => ip.octets
  | some (.ns host) => canonicalName host
  | some (.cname host) => canonicalName host
  | some (.ptr host) => canonicalName host
  | some (.mx preference exchange) => u16ToBeBytes preference ++ canonicalName exchange
  | some (.dnskey k) => dnskeyRdata k.flags k.protocol k.algorithm k.publicKey
  | some (.ds d) => u16ToBeBytes d.keyTag ++ d.algorithm :: d.digestType :: d.digest
  | some (.nsec nextDomain typeBitMaps) => canonicalName nextDomain ++ typeBitMaps
  | some (.soa s) =>
      canonicalName s.mname ++ canonicalName s.rname ++ u32ToBeBytes s.serial ++
        u32ToBeBytes s.refresh ++ u32ToBeBytes s.retry ++ u32ToBeBytes s.expire ++
        u32ToBeBytes s.minimum
  | some (.txt strings) => strings.flatMap fun s => UInt8.ofNat s.length :: s
  | some (.unknown original) => original
  | _ => []

/-- `record_to_canonical_wire` -/
def recordToCanonicalWire (record : ResourceRecord) (originalTtl : UInt32) : Bytes :=
  let rdata := recordRdataCanonical record
  canonicalName record.name ++ u16ToBeBytes record.rtype ++ u16ToBeBytes record.rclass ++
    u32ToBeBytes originalTtl ++ u16ToBeBytes (UInt16.ofNat rdata.length) ++ rdata

/-- The order in which byte strings are sorted. -/
def bytesLe : Bytes → Bytes → Bool
  | [], _ => true
  | _ :: _, [] => false
  | x :: a, y :: b => x < y || (x == y && bytesLe a b)

/-- `build_signed_data` -/
def buildSignedData (rrsig : ResourceRecord) (rrset : List ResourceRecord) : Bytes :=
  match rrsig.parsed with
  | some (.rrsig s) =>
      let canonicalRecords :=
        (rrset.map fun r => recordToCanonicalWire r s.originalTtl).insertionSort
          fun a b => bytesLe a b = true
      u16ToBeBytes s.typeCovered ++ s.algorithm :: s.labels :: u32ToBeBytes s.originalTtl ++
        u32ToBeBytes s.signatureExpiration ++ u32ToBeBytes s.signatureInception ++
        u16ToBeBytes s.keyTag ++ canonicalName s.signerName ++ canonicalRecords.flatten
  | _ => []

/-! ### Signatures -/

/-- `is_rrsig_time_valid`: serial number arithmetic, five minutes of slack before
the inception. -/
def isRrsigTimeValid (now expiration inception : UInt32) : Bool :=
  let inceptionOk := now - inception < 0x80000000
  let expirationOk := expiration - now < 0x80000000
  (inceptionOk || now + 300 ≥ inception) && expirationOk

/-- One round of the key loop of `validate_rrset`: the key has the algorithm and
the tag of the signature and verifies it. -/
def keyVerifies (crypto : Crypto) (s : Rrsig) (signedData : Bytes) (dk : ResourceRecord) : Bool :=
  match dk.parsed with
  | some (.dnskey k) =>
      k.algorithm = s.algorithm &&
        computeKeyTag k.flags k.protocol k.algorithm k.publicKey = s.keyTag &&
        verifySignature crypto s.algorithm k.publicKey signedData s.signature
  | _ => false

/-- `validate_rrset` -/
def validateRrset (crypto : Crypto) (now : UInt32) (rrsig : ResourceRecord)
    (records dnskeys : List ResourceRecord) : ValidationResult :=
  match rrsig.parsed with
  | some (.rrsig s) =>
      if !isRrsigTimeValid now s.signatureExpiration s.signatureInception then
        .bogus "RRSIG time window invalid"
      else if dnskeys.any (keyVerifies crypto s (buildSignedData rrsig records)) then .secure
      else .bogus "No matching DNSKEY found for RRSIG"
  | _ => .indeterminate

section Verdict

variable {crypto : Crypto} {now : UInt32} {rrsig : ResourceRecord}
  {records dnskeys : List ResourceRecord}

/-- A signature with parsed RDATA is verified or bogus, any other is skipped. -/
theorem validateRrset_indeterminate_iff :
    validateRrset crypto now rrsig records dnskeys = .indeterminate ↔
      ∀ s, rrsig.parsed ≠ some (.rrsig s) := by
  unfold validateRrset
  split
  · rename_i s hs
    split
    · simp [hs]
    · split <;> simp [hs]
  · rename_i hno
    simpa using hno

theorem validateRrset_of_parsed {s : Rrsig} (hs : rrsig.parsed = some (.rrsig s)) :
    validateRrset crypto now rrsig records dnskeys = .secure ↔
      isRrsigTimeValid now s.signatureExpiration s.signatureInception = true ∧
        ∃ dk ∈ dnskeys, keyVerifies crypto s (buildSignedData rrsig records) dk = true := by
  simp only [validateRrset, hs]
  rw [← List.any_eq_true]
  cases isRrsigTimeValid now s.signatureExpiration s.signatureInception with
  | false => simp
  | true =>
      cases dnskeys.any (keyVerifies crypto s (buildSignedData rrsig records)) with
      | false => simp
      | true => simp

end Verdict

/-! ### Delegation signers and trust anchors -/

/-- `is_root_zone` -/
def isRootZone (name : Bytes) : Bool := name = [0]

/-- `parent_zone` -/
def parentZone (name : Bytes) : Option Bytes :=
  if isRootZone name then none
  else match name with
    | [] => some [0]
    | first :: rest =>
        let parent := rest.drop first.toNat
        if parent.isEmpty || parent == [0] then some [0] else some parent

/-- `verify_ds` -/
def verifyDs (crypto : Crypto) (ds dnskey : ResourceRecord) (owner : Bytes) : Bool :=
  match ds.parsed, dnskey.parsed with
  | some (.ds d), some (.dnskey k) =>
      if computeKeyTag k.flags k.protocol k.algorithm k.publicKey ≠ d.keyTag ∨
          k.algorithm ≠ d.algorithm then false
      else
        let input := nameToWire owner ++ dnskeyRdata k.flags k.protocol k.algorithm k.publicKey
        if d.digestType = 2 then crypto.sha256 input = d.digest
        else if d.digestType = 4 then crypto.sha384 input = d.digest
        else false
  | _, _ => false

/-- `validate_dnskeys_against_ds`: the owner is passed as the empty string. -/
def validateDnskeysAgainstDs (crypto : Crypto) (dnskeys dsRecords : List ResourceRecord) : Bool :=
  if dnskeys.isEmpty || dsRecords.isEmpty then false
  else dsRecords.all fun ds => dnskeys.any fun dk => verifyDs crypto ds dk []

/-- `ROOT_KSK_2017_PUBLIC_KEY` -/
def rootKsk2017PublicKey : Bytes :=
  [0x03, 0x01, 0x00, 0x01, 0xac, 0xff, 0xb4, 0x09, 0xbc, 0xc9, 0x39, 0xf8, 0x31, 0xf7,
    0xa1, 0xe5, 0xec, 0x88, 0xf7, 0xa5, 0x92, 0x55, 0xec, 0x53, 0x04, 0x0b, 0xe4, 0x32,
    0x02, 0x73, 0x90, 0xa4, 0xce, 0x89, 0x6d, 0x6f, 0x90, 0x86, 0xf3, 0xc5, 0xe1, 0x77,
    0xfb, 0xfe, 0x11, 0x81, 0x63, 0xaa, 0xec, 0x7a, 0xf1, 0x46, 0x2c, 0x47, 0x94, 0x59,
    0x44, 0xc4, 0xe2, 0xc0, 0x26, 0xbe, 0x5e, 0x98, 0xbb, 0xcd, 0xed, 0x25, 0x97, 0x82,
    0x72, 0xe1, 0xe3, 0xe0, 0x79, 0xc5, 0x09, 0x4d, 0x57, 0x3f, 0x0e, 0x83, 0xc9, 0x2f,
    0x02, 0xb3, 0x2d, 0x35, 0x13, 0xb1, 0x55, 0x0b, 0x82, 0x69, 0x29, 0xc8, 0x0d, 0xd0,
    0xf9, 0x2c, 0xac, 0x96, 0x6d, 0x17, 0x76, 0x9f, 0xd5, 0x86, 0x7b, 0x64, 0x7c, 0x3f,
    0x38, 0x02, 0x9a, 0xbd, 0xc4, 0x81, 0x52, 0xeb, 0x8f, 0x20, 0x71, 0x59, 0xec, 0xc5,
    0xd2, 0x32, 0xc7, 0xc1, 0x53, 0x7c, 0x79, 0xf4, 0xb7, 0xac, 0x28, 0xff, 0x11, 0x68,
    0x2f, 0x21, 0x68, 0x1b, 0xf6, 0xd6, 0xab, 0xa5, 0x55, 0x03, 0x2b, 0xf6, 0xf9, 0xf0,
    0x36, 0xbe, 0xb2, 0xaa, 0xa5, 0xb3, 0x77, 0x8d, 0x6e, 0xeb, 0xfb, 0xa6, 0xbf, 0x9e,
    0xa1, 0x91, 0xbe, 0x4a, 0xb0, 0xca, 0xea, 0x75, 0x9e, 0x2f, 0x77, 0x3a, 0x1f, 0x90,
    0x29, 0xc7, 0x3e, 0xcb, 0x8d, 0x57, 0x35, 0xb9, 0x32, 0x1d, 0xb0, 0x85, 0xf1, 0xb8,
    0xe2, 0xd8, 0x03, 0x8f, 0xe2, 0x94, 0x19, 0x92, 0x54, 0x8c, 0xee, 0x0d, 0x67, 0xdd,
    0x45, 0x47, 0xe1, 0x1d, 0xd6, 0x3a, 0xf9, 0xc9, 0xfc, 0x1c, 0x54, 0x66, 0xfb, 0x68,
    0x4c, 0xf0, 0x09, 0xd7, 0x19, 0x7c, 0x2c, 0xf7, 0x9e, 0x79, 0x2a, 0xb5, 0x01, 0xe6,
    0xa8, 0xa1, 0xca, 0x51, 0x9a, 0xf2, 0xcb, 0x9b, 0x5f, 0x63, 0x67, 0xe9, 0x4c, 0x0d,
    0x47, 0x50, 0x24, 0x51, 0x35, 0x7b, 0xe1, 0xb5]

/-- `ROOT_KSK_2024_PUBLIC_KEY` -/
def rootKsk2024PublicKey : Bytes :=
  [0x03, 0x01, 0x00, 0x01, 0xaf, 0x7a, 0x8d, 0xeb, 0xa4, 0x9d, 0x99, 0x5a, 0x79, 0x2a,
    0xef, 0xc8, 0x02, 0x63, 0xe9, 0x91, 0xef, 0xdb, 0xc8, 0x61, 0x38, 0xa9, 0x31, 0xde,
    0xb2, 0xc6, 0x5d, 0x56, 0x82, 0xea, 0xb5, 0xd3, 0xb0, 0x37, 0x38, 0xe3, 0xdf, 0xdc,
    0x89, 0xd9, 0x6d, 0xa6, 0x4c, 0x86, 0xc0, 0x22, 0x4d, 0x9c, 0xe0, 0x25, 0x14, 0xd2,
    0x85, 0xda, 0x30, 0x68, 0xb1, 0x90, 0x54, 0xe5, 0xe7, 0x87, 0xb2, 0x96, 0x90, 0x58,
    0xe9, 0x8e, 0x12, 0x56, 0x6c, 0x8c, 0x80, 0x8c, 0x40, 0xc0, 0xb7, 0x69, 0xe1, 0xdb,
    0x1a, 0x24, 0xa1, 0xbd, 0x9b, 0x31, 0xe3, 0x03, 0x18, 0x4a, 0x31, 0xfc, 0x7b, 0xb5,
    0x6b, 0x85, 0xbb, 0xba, 0x8a, 0xbc, 0x02, 0xcd, 0x50, 0x40, 0xa4, 0x44, 0xa3, 0x6d,
    0x47, 0x69, 0x59, 0x69, 0x84, 0x9e, 0x16, 0xad, 0x85, 0x6b, 0xb5, 0x8e, 0x8f, 0xac,
    0x88, 0x55, 0x22, 0x44, 0x00, 0x31, 0x9b, 0xda, 0xb2, 0x24, 0xd8, 0x3f, 0xc0, 0xe6,
    0x6a, 0xab, 0x32, 0xff, 0x74, 0xbf, 0xea, 0xf0, 0xf9, 0x1c, 0x45, 0x4e, 0x68, 0x50,
    0xa1, 0x29, 0x52, 0x07, 0xbb, 0xd4, 0xcd, 0xde, 0x8f, 0x6f, 0xfb, 0x08, 0xfa, 0xa9,
    0x75, 0x5c, 0x2e, 0x32, 0x84, 0xef, 0xa0, 0x1f, 0x99, 0x39, 0x3e, 0x18, 0x78, 0x6c,
    0xb1, 0x32, 0xf1, 0xe6, 0x6e, 0xbc, 0x65, 0x17, 0x31, 0x8e, 0x1c, 0xe8, 0xa3, 0xb7,
    0x33, 0x7e, 0xbb, 0x54, 0xd0, 0x35, 0xab, 0x57, 0xd9, 0x70, 0x6e, 0xcd, 0x93, 0x50,
    0xd4, 0xaf, 0xac, 0xd8, 0x25, 0xe4, 0x3c, 0x86, 0x68, 0xee, 0xce, 0x89, 0x81, 0x9c,
    0xaf, 0x68, 0x17, 0xaf, 0x62, 0xdc, 0x4f, 0xbd, 0x82, 0xf0, 0xe3, 0x3f, 0x66, 0x47,
    0xb2, 0xb6, 0xbd, 0xa1, 0x75, 0xf1, 0x46, 0x07, 0xf5, 0x9f, 0x46, 0x35, 0x45, 0x1e,
    0x6b, 0x27, 0xdf, 0x28, 0x2e, 0xf7, 0x3d, 0x87]

/-- `TRUST_ANCHORS`, as the pairs of algorithm and public key that identify them. -/
def trustAnchors : List (UInt8 × Bytes) := [(8, rootKsk2017PublicKey), (8, rootKsk2024PublicKey)]

/-- `same_dnskey`, against an anchor. -/
def sameDnskey (dk : ResourceRecord) (anchor : UInt8 × Bytes) : Bool :=
  match dk.parsed with
  | some (.dnskey k) => k.algorithm = anchor.1 && k.publicKey = anchor.2
  | _ => false

/-- `validate_dnskeys_against_root_anchor` -/
def validateDnskeysAgainstRootAnchor (dnskeys : List ResourceRecord) : Bool :=
  dnskeys.any fun dk => trustAnchors.any (sameDnskey dk)

/-! ### Denial of existence -/

/-- `validate_negative_dnssec`. Only the presence of NSEC or NSEC3 records
decides: the source looks for a signature of each NSEC record and then goes on
the same way whether it found one or not. -/
def validateNegativeDnssec (nsecRecords nsec3Records : List ResourceRecord) : ValidationResult :=
  if !nsecRecords.isEmpty then .secure
  else if !nsec3Records.isEmpty then .secure
  else .indeterminate

end FastDns.Dnssec
