/-
The public verdict on a negative answer (`validate_negative_dnssec`) against what
a verified denial is.

`dnssec/mod.rs` decides twice whether NSEC records deny a name.
`validate_denial` (`Dnssec/Denial.lean`) checks signatures, gaps and type
bitmaps. `validate_negative_dnssec`, which the resolver calls for the AD flag,
looks for signers and drops what it found. `DeniedBy` states the decision the
first one takes, for the records the signatures verify, and
`negative_sound_iff` says when the second one can be trusted with it.
-/

import FastDns.Dnssec.Denial

namespace FastDns.Dnssec

open FastDns.Lib FastDns.Dns FastDns.Resolver

/-! ### The verdict, with all its arguments -/

/-- The closure of `validate_negative_dnssec`: a signature of type NSEC by a
signer at or above the owner. The signature itself is not looked at. -/
def hasNsecSigner (nsec rrsig : ResourceRecord) : Bool :=
  match rrsig.parsed with
  | some (.rrsig s) =>
      if s.typeCovered ≠ 47 then false
      else
        let nsecZone := labelsToString nsec.name
        let signer := labelsToString s.signerName
        (46 :: signer).isSuffixOf nsecZone || nsecZone == signer
  | _ => false

/-- `validate_negative_dnssec` as it is called. The first loop leaves one
`has_valid_rrsig` for each NSEC record; both branches on it do nothing. -/
def validateNegativeDnssecCall (_soaRecords nsecRecords nsec3Records rrsigs
    _dnskeys : List ResourceRecord) (_qname : Bytes) (_qtype : UInt16) : ValidationResult :=
  if !nsecRecords.isEmpty then
    let _hasValidRrsig := nsecRecords.map fun nsec => rrsigs.any (hasNsecSigner nsec)
    .secure
  else if !nsec3Records.isEmpty then .secure
  else if !rrsigs.isEmpty then .indeterminate
  else .indeterminate

/-- Only the presence of NSEC or NSEC3 records reaches the verdict. -/
theorem validateNegativeDnssecCall_eq (soaRecords nsecRecords nsec3Records rrsigs
    dnskeys : List ResourceRecord) (qname : Bytes) (qtype : UInt16) :
    validateNegativeDnssecCall soaRecords nsecRecords nsec3Records rrsigs dnskeys qname qtype =
      validateNegativeDnssec nsecRecords nsec3Records := by
  unfold validateNegativeDnssecCall validateNegativeDnssec
  simp only [ite_self]

theorem validateNegativeDnssec_eq_secure {nsecRecords nsec3Records : List ResourceRecord} :
    validateNegativeDnssec nsecRecords nsec3Records = .secure ↔
      ¬ (nsecRecords = [] ∧ nsec3Records = []) := by
  unfold validateNegativeDnssec
  cases nsecRecords with
  | cons r rest => simp
  | nil =>
      cases nsec3Records with
      | cons r rest => simp
      | nil => simp

/-! ### Verified denials -/

/-- A signature for the RRset of the record: of its owner, covering its type. -/
def coversRecord (r rrsig : ResourceRecord) : Bool :=
  match rrsig.parsed with
  | some (.rrsig s) => rrsig.name == r.name && s.typeCovered == r.rtype
  | _ => false

/-- One of the signatures covers the record and verifies its RRset among
`records` under one of the keys. -/
def signedBy (crypto : Crypto) (now : UInt32) (records rrsigs dnskeys : List ResourceRecord)
    (r : ResourceRecord) : Bool :=
  rrsigs.any fun rrsig => coversRecord r rrsig &&
    validateRrset crypto now rrsig (rrsetAt records r.name r.rtype).records dnskeys == .secure

/-- The records deny the name or the type at the name, by the rules of
`validate_denial`. What hashed owners deny is a parameter. -/
def DeniedBy (nsec3Denies : List ResourceRecord → Bytes → UInt16 → Prop)
    (verified : List ResourceRecord) (qname : Bytes) (qtype : UInt16) : Prop :=
  nsecVerdict (verified.filter isNsec) (labelsToString qname) qtype true = .secure ∨
    nsecVerdict (verified.filter isNsec) (labelsToString qname) qtype false = .secure ∨
    nsec3Denies verified qname qtype

/-- A secure verdict on these arguments rests on a verified denial. -/
def NegativeSound (crypto : Crypto) (now : UInt32)
    (nsec3Denies : List ResourceRecord → Bytes → UInt16 → Prop)
    (soaRecords nsecRecords nsec3Records rrsigs dnskeys : List ResourceRecord)
    (qname : Bytes) (qtype : UInt16) : Prop :=
  validateNegativeDnssecCall soaRecords nsecRecords nsec3Records rrsigs dnskeys qname qtype =
      .secure →
    let records := nsecRecords ++ nsec3Records
    let verified := records.filter (signedBy crypto now records rrsigs dnskeys)
    verified ≠ [] ∧ DeniedBy nsec3Denies verified qname qtype

/-- **A negative answer is authenticated by a verified denial only where there is
nothing to authenticate it with**: as soon as there is an NSEC or NSEC3 record,
some signatures and keys (for one, none at all) make the verdict wrong. -/
theorem negative_sound_iff (crypto : Crypto) (now : UInt32)
    (nsec3Denies : List ResourceRecord → Bytes → UInt16 → Prop)
    (soaRecords nsecRecords nsec3Records : List ResourceRecord) (qname : Bytes) (qtype : UInt16) :
    (∀ rrsigs dnskeys, NegativeSound crypto now nsec3Denies soaRecords nsecRecords nsec3Records
      rrsigs dnskeys qname qtype) ↔ nsecRecords = [] ∧ nsec3Records = [] := by
  constructor
  · intro hsound
    by_contra hsome
    have hsecure := validateNegativeDnssec_eq_secure.mpr hsome
    rw [← validateNegativeDnssecCall_eq soaRecords _ _ [] [] qname qtype] at hsecure
    obtain ⟨hverified, _⟩ := hsound [] [] hsecure
    exact hverified (List.filter_eq_nil_iff.mpr fun r _ => by simp [signedBy])
  · intro hnone rrsigs dnskeys hsecure
    rw [validateNegativeDnssecCall_eq] at hsecure
    exact absurd hnone (validateNegativeDnssec_eq_secure.mp hsecure)

/-- An NSEC record `a` → `b`. -/
def strayNsec : ResourceRecord :=
  ⟨[1, 0x61, 0], 47, 1, 60, 3, [1, 0x62, 0], some (.nsec [1, 0x62, 0] [])⟩

/-- A signature over something else, with no bytes of signature. -/
def straySignature : ResourceRecord :=
  ⟨[1, 0x61, 0], 46, 1, 60, 21, [], some (.rrsig ⟨1, 8, 1, 60, 0, 0, 0, [1, 0x61, 0], []⟩)⟩

/-- A key with no bytes of key. -/
def strayKey : ResourceRecord := ⟨[1, 0x61, 0], 48, 1, 60, 4, [], some (.dnskey ⟨257, 3, 8, []⟩)⟩

/-- The name `x` is denied by a record about other names that nobody signed. -/
theorem negative_secure_unsigned :
    validateNegativeDnssecCall [] [strayNsec] [] [straySignature] [strayKey] [1, 0x78, 0] 1 =
        .secure ∧
      (∀ crypto now,
        [strayNsec].filter (signedBy crypto now [strayNsec] [straySignature] [strayKey]) = []) ∧
      nsecVerdict [strayNsec] (labelsToString [1, 0x78, 0]) 1 true = .bogus ∧
      nsecVerdict [strayNsec] (labelsToString [1, 0x78, 0]) 1 false = .bogus ∧
      ∀ crypto now nsec3Denies, ¬ NegativeSound crypto now nsec3Denies [] [strayNsec] []
        [straySignature] [strayKey] [1, 0x78, 0] 1 := by
  have hunsigned : ∀ crypto now,
      [strayNsec].filter (signedBy crypto now [strayNsec] [straySignature] [strayKey]) = [] :=
    fun _ _ => rfl
  refine ⟨rfl, hunsigned, by decide +kernel, by decide +kernel, ?_⟩
  intro crypto now nsec3Denies hsound
  exact (hsound rfl).1 (hunsigned crypto now)

end FastDns.Dnssec
