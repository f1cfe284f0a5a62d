/-
`validate_dnssec` (`src/resolver/recursive.rs`): the verdict on a positive
answer.

The source walks over all signatures twice and returns at the first one that
fails; if none does, the verdict is `Secure`. So the verdict is `Secure`
exactly when nothing fails (`validateDnssec_eq_secure`), which is weaker than
that something was verified: a list of signatures that are all skipped passes.
`verdictSound_iff` says for which inputs the verdict can be relied on, and
`further_signatures_iff` which other signatures spoil the verdict on an RRset that
has been verified.
-/

import FastDns.Dnssec.ChainOfTrust
import FastDns.Dnssec.Validate

namespace FastDns.Resolver

open FastDns.Lib FastDns.Dns FastDns.Dnssec

/-! ### The validator -/

/-- `rrsig_type_covered`: from the parsed RDATA, or from its first two bytes. -/
def rrsigTypeCovered (r : ResourceRecord) : Option UInt16 :=
  match r.parsed with
  | some (.rrsig s) => some s.typeCovered
  | _ => if r.rtype = 46 ∧ r.rdata.length ≥ 2 then some (u16At r.rdata 0) else none

/-- Both loops of `validate_dnssec`: `Secure` and `Indeterminate` go on, any
other verdict is returned. -/
def firstFailure : List ValidationResult → Option ValidationResult
  | [] => none
  | .secure :: rest => firstFailure rest
  | .indeterminate :: rest => firstFailure rest
  | other :: _ => some other

/-- `validate_dnssec` -/
def validateDnssec (crypto : Crypto) (now : UInt32) (dnssecOk : Bool)
    (records rrsigs dnskeys : List ResourceRecord) : ValidationResult :=
  if !dnssecOk then .indeterminate
  else if rrsigs.isEmpty || dnskeys.isEmpty then .indeterminate
  else
    let answerRrsigs := rrsigs.filter fun r => rrsigTypeCovered r ≠ some 48
    let dnskeyRrsigs := rrsigs.filter fun r => rrsigTypeCovered r = some 48
    match firstFailure (answerRrsigs.map fun r => validateRrset crypto now r records dnskeys) with
    | some other => other
    | none =>
        match firstFailure (dnskeyRrsigs.map fun r => validateRrset crypto now r dnskeys dnskeys) with
        | some other => other
        | none => .secure

/-! ### When the verdict is `Secure` -/

section Verdict

variable {crypto : Crypto} {now : UInt32} {dnssecOk : Bool}
  {records rrsigs dnskeys : List ResourceRecord}

theorem firstFailure_eq_none {verdicts : List ValidationResult} :
    firstFailure verdicts = none ↔ ∀ v ∈ verdicts, v = .secure ∨ v = .indeterminate := by
  induction verdicts with
  | nil => simp [firstFailure]
  | cons v rest ih => cases v <;> simp [firstFailure, ih]

/-- A verdict that ends a loop is not `Secure`. -/
theorem firstFailure_ne_secure {verdicts : List ValidationResult} :
    firstFailure verdicts ≠ some .secure := by
  induction verdicts with
  | nil => simp [firstFailure]
  | cons v rest ih => cases v <;> simp [firstFailure, ih]

/-- The records a signature is checked against: DNSKEY signatures against the
keys, all others against the answer. -/
def checkedAgainst (records dnskeys : List ResourceRecord) (rrsig : ResourceRecord) :
    List ResourceRecord :=
  if rrsigTypeCovered rrsig = some 48 then dnskeys else records

/-- The list holds a signature that is checked and does not verify. -/
def SomeFails (crypto : Crypto) (now : UInt32) (records rrsigs dnskeys : List ResourceRecord) :
    Prop :=
  ∃ rrsig ∈ rrsigs, (∃ s, rrsig.parsed = some (.rrsig s)) ∧
    validateRrset crypto now rrsig (checkedAgainst records dnskeys rrsig) dnskeys ≠ .secure

theorem not_someFails_iff :
    ¬ SomeFails crypto now records rrsigs dnskeys ↔
      ∀ rrsig ∈ rrsigs,
        validateRrset crypto now rrsig (checkedAgainst records dnskeys rrsig) dnskeys = .secure ∨
        validateRrset crypto now rrsig (checkedAgainst records dnskeys rrsig) dnskeys =
          .indeterminate := by
  constructor
  · intro hno rrsig hmem
    by_cases hparsed : ∃ s, rrsig.parsed = some (.rrsig s)
    · refine .inl ?_
      by_contra hfail
      exact hno ⟨rrsig, hmem, hparsed, hfail⟩
    · exact .inr (validateRrset_indeterminate_iff.mpr (not_exists.mp hparsed))
  · rintro hall ⟨rrsig, hmem, ⟨s, hs⟩, hfail⟩
    rcases hall rrsig hmem with hsecure | hskipped
    · exact hfail hsecure
    · exact validateRrset_indeterminate_iff.mp hskipped s hs

/-- Neither loop finds a failure exactly when no signature of the list fails. -/
theorem loops_pass_iff :
    (firstFailure ((rrsigs.filter fun r => rrsigTypeCovered r ≠ some 48).map
        fun r => validateRrset crypto now r records dnskeys) = none ∧
      firstFailure ((rrsigs.filter fun r => rrsigTypeCovered r = some 48).map
        fun r => validateRrset crypto now r dnskeys dnskeys) = none) ↔
      ¬ SomeFails crypto now records rrsigs dnskeys := by
  rw [not_someFails_iff, firstFailure_eq_none, firstFailure_eq_none]
  simp only [List.mem_map, List.mem_filter, decide_eq_true_eq]
  constructor
  · rintro ⟨hanswer, hdnskey⟩ rrsig hmem
    by_cases htype : rrsigTypeCovered rrsig = some 48
    · rw [checkedAgainst, if_pos htype]
      exact hdnskey _ ⟨rrsig, ⟨hmem, htype⟩, rfl⟩
    · rw [checkedAgainst, if_neg htype]
      exact hanswer _ ⟨rrsig, ⟨hmem, htype⟩, rfl⟩
  · intro hall
    constructor
    · rintro _ ⟨rrsig, ⟨hmem, htype⟩, rfl⟩
      have hpass := hall rrsig hmem
      rwa [checkedAgainst, if_neg htype] at hpass
    · rintro _ ⟨rrsig, ⟨hmem, htype⟩, rfl⟩
      have hpass := hall rrsig hmem
      rwa [checkedAgainst, if_pos htype] at hpass

/-- **The verdict is `Secure` exactly when there is something to check and
nothing that is checked fails.** -/
theorem validateDnssec_eq_secure :
    validateDnssec crypto now dnssecOk records rrsigs dnskeys = .secure ↔
      dnssecOk = true ∧ rrsigs ≠ [] ∧ dnskeys ≠ [] ∧
        ¬ SomeFails crypto now records rrsigs dnskeys := by
  unfold validateDnssec
  cases dnssecOk with
  | false => simp
  | true =>
      by_cases hempty : (rrsigs.isEmpty || dnskeys.isEmpty) = true
      · have hno : rrsigs = [] ∨ dnskeys = [] := by simpa using hempty
        simp only [Bool.not_true, Bool.false_eq_true, if_false, hempty, if_true, true_and]
        constructor
        · intro h
          cases h
        · rintro ⟨hr, hd, _⟩
          rcases hno with h | h
          · exact absurd h hr
          · exact absurd h hd
      · have hboth : rrsigs ≠ [] ∧ dnskeys ≠ [] := by simpa using hempty
        simp only [Bool.not_true, Bool.false_eq_true, if_false, hempty, true_and]
        rw [← loops_pass_iff]
        constructor
        · intro h
          refine ⟨hboth.1, hboth.2, ?_⟩
          split at h
          · rename_i other hother
            subst h
            exact absurd hother firstFailure_ne_secure
          · rename_i hanswer
            split at h
            · rename_i other hother
              subst h
              exact absurd hother firstFailure_ne_secure
            · rename_i hdnskey
              exact ⟨hanswer, hdnskey⟩
        · rintro ⟨_, _, hanswer, hdnskey⟩
          rw [hanswer, hdnskey]

end Verdict

/-! ### When the verdict can be relied on -/

/-- The signature covers the records: same owner, same type, and a signer at or
above the owner. -/
def Covers (rrsig : ResourceRecord) (records : List ResourceRecord) : Prop :=
  ∃ s, rrsig.parsed = some (.rrsig s) ∧ ∀ r ∈ records,
    domainNamesEqual rrsig.name r.name = true ∧ s.typeCovered = r.rtype ∧
      IsSubdomain r.name s.signerName

/-- A `Secure` verdict rests on a signature that covers the records and
verifies over them. -/
def VerdictSound (crypto : Crypto) (now : UInt32) (dnssecOk : Bool)
    (records rrsigs dnskeys : List ResourceRecord) : Prop :=
  validateDnssec crypto now dnssecOk records rrsigs dnskeys = .secure →
    ∃ rrsig ∈ rrsigs, Covers rrsig records ∧
      validateRrset crypto now rrsig records dnskeys = .secure

/-- **The verdict on an RRset can be relied on exactly when the list holds a
signature that covers it, or nothing is validated at all, or some signature of
the list fails.** A covering signature over DNSKEY records is checked against
the keys and not against the records, so it has to verify over the records too. -/
theorem verdictSound_iff (crypto : Crypto) (now : UInt32) (dnssecOk : Bool)
    (records rrsigs dnskeys : List ResourceRecord) :
    VerdictSound crypto now dnssecOk records rrsigs dnskeys ↔
      (∃ rrsig ∈ rrsigs, Covers rrsig records ∧
        (rrsigTypeCovered rrsig = some 48 →
          validateRrset crypto now rrsig records dnskeys = .secure)) ∨
      dnssecOk = false ∨ rrsigs = [] ∨ dnskeys = [] ∨
      SomeFails crypto now records rrsigs dnskeys := by
  constructor
  · intro hsound
    by_cases hsecure : validateDnssec crypto now dnssecOk records rrsigs dnskeys = .secure
    · obtain ⟨rrsig, hmem, hcovers, hverified⟩ := hsound hsecure
      exact .inl ⟨rrsig, hmem, hcovers, fun _ => hverified⟩
    · refine .inr ?_
      rw [validateDnssec_eq_secure] at hsecure
      by_contra hnone
      simp only [not_or, Bool.not_eq_false] at hnone
      exact hsecure hnone
  · rintro hcond hsecure
    obtain ⟨hok, hrrsigs, hdnskeys, hpass⟩ := validateDnssec_eq_secure.mp hsecure
    rcases hcond with ⟨rrsig, hmem, hcovers, hdnskey⟩ | hoff | hempty | hempty | hfails
    · refine ⟨rrsig, hmem, hcovers, ?_⟩
      by_cases htype : rrsigTypeCovered rrsig = some 48
      · exact hdnskey htype
      · -- Any other signature was checked against the records and did not fail.
        obtain ⟨s, hs, _⟩ := hcovers
        by_contra hfail
        refine hpass ⟨rrsig, hmem, ⟨s, hs⟩, ?_⟩
        rwa [checkedAgainst, if_neg htype]
    · exact absurd hok (by simp [hoff])
    · exact absurd hempty hrrsigs
    · exact absurd hempty hdnskeys
    · exact absurd hfails hpass

/-- A set of primitives under which nothing verifies. -/
def Crypto.rejectAll : Crypto where
  rsaSha256 _ _ _ _ := false
  ecdsaP256Fixed _ _ _ := false
  ecdsaP256Der _ _ _ := false
  ecdsaP384Fixed _ _ _ := false
  ecdsaP384Der _ _ _ := false
  ed25519 _ _ _ := false
  sha256 _ := []
  sha384 _ := []

/-- An A record of `a.test`. -/
def sampleAnswer : ResourceRecord :=
  ⟨[1, 0x61, 4, 0x74, 0x65, 0x73, 0x74, 0], 1, 1, 60, 4, [192, 0, 2, 1],
    some (.a ⟨192, 0, 2, 1⟩)⟩

/-- A signature record too short to be parsed. -/
def unparsedRrsig : ResourceRecord := ⟨[0], 46, 1, 60, 0, [], none⟩

/-- A key nobody has verified. -/
def sampleKeyRecord : ResourceRecord :=
  ⟨[0], 48, 1, 60, 4, [1, 1, 3, 8], some (.dnskey ⟨257, 3, 8, []⟩)⟩

/-- An answer that no signature covers is `Secure` once it comes with a
signature that cannot be parsed and with any key, although nothing verifies. -/
theorem unparsedRrsig_is_secure :
    validateDnssec Crypto.rejectAll 0 true [sampleAnswer] [unparsedRrsig] [sampleKeyRecord] =
        .secure ∧
      ¬ VerdictSound Crypto.rejectAll 0 true [sampleAnswer] [unparsedRrsig] [sampleKeyRecord] := by
  have hsecure : validateDnssec Crypto.rejectAll 0 true [sampleAnswer] [unparsedRrsig]
      [sampleKeyRecord] = .secure := by decide +kernel
  refine ⟨hsecure, ?_⟩
  intro hsound
  obtain ⟨rrsig, hmem, ⟨s, hs, _⟩, _⟩ := hsound hsecure
  rw [List.mem_singleton.mp hmem] at hs
  cases hs

/-! ### What other signatures do to the verdict -/

/-- The signature does not stop the validator: it has no parsed RDATA, or its
time is right and one of the keys verifies it over what it is checked against. -/
def Passes (crypto : Crypto) (now : UInt32) (records dnskeys : List ResourceRecord)
    (rrsig : ResourceRecord) : Prop :=
  ∀ s, rrsig.parsed = some (.rrsig s) →
    isRrsigTimeValid now s.signatureExpiration s.signatureInception = true ∧
      ∃ dk ∈ dnskeys, keyVerifies crypto s
        (buildSignedData rrsig (checkedAgainst records dnskeys rrsig)) dk = true

section FurtherSignatures

variable {crypto : Crypto} {now : UInt32} {records dnskeys : List ResourceRecord}
  {rrsig : ResourceRecord}

/-- Only a verified signature needs keys. -/
theorem dnskeys_ne_nil_of_secure
    (h : validateRrset crypto now rrsig records dnskeys = .secure) : dnskeys ≠ [] := by
  intro hnone
  have hparsed : ∃ s, rrsig.parsed = some (.rrsig s) := by
    by_contra hno
    rw [validateRrset_indeterminate_iff.mpr (not_exists.mp hno)] at h
    cases h
  obtain ⟨s, hs⟩ := hparsed
  obtain ⟨_, dk, hdk, _⟩ := (validateRrset_of_parsed hs).mp h
  rw [hnone] at hdk
  cases hdk

theorem not_someFails_iff_passes {rrsigs : List ResourceRecord} :
    ¬ SomeFails crypto now records rrsigs dnskeys ↔
      ∀ other ∈ rrsigs, Passes crypto now records dnskeys other := by
  constructor
  · intro hno other hmem s hs
    rw [← validateRrset_of_parsed hs]
    by_contra hfail
    exact hno ⟨other, hmem, ⟨s, hs⟩, hfail⟩
  · rintro hall ⟨other, hmem, ⟨s, hs⟩, hfail⟩
    exact hfail ((validateRrset_of_parsed hs).mpr (hall other hmem s hs))

end FurtherSignatures

/-- **An RRset that a signature of the list verifies gets the verdict `Secure`
exactly when validation is on and no other signature of the list stops it**,
whichever records that other signature is about. -/
theorem further_signatures_iff (crypto : Crypto) (now : UInt32) (dnssecOk : Bool)
    (records rrsigs dnskeys : List ResourceRecord) (rrsig : ResourceRecord)
    (hmem : rrsig ∈ rrsigs)
    (hsecure : validateRrset crypto now rrsig records dnskeys = .secure) :
    validateDnssec crypto now dnssecOk records rrsigs dnskeys = .secure ↔
      dnssecOk = true ∧ ∀ other ∈ rrsigs, Passes crypto now records dnskeys other := by
  have hrrsigs : rrsigs ≠ [] := List.ne_nil_of_mem hmem
  have hdnskeys := dnskeys_ne_nil_of_secure hsecure
  rw [validateDnssec_eq_secure, not_someFails_iff_passes]
  constructor
  · exact fun ⟨hok, _, _, hpass⟩ => ⟨hok, hpass⟩
  · exact fun ⟨hok, hpass⟩ => ⟨hok, hrrsigs, hdnskeys, hpass⟩

/-- The address of `a.test` again, with the time to live its zone signed. -/
def signedAnswer : ResourceRecord :=
  sampleRecord [1, 97, 4, 116, 101, 115, 116, 0] 1 (.a ⟨192, 0, 2, 1⟩)

/-- The Ed25519 signature of the zone `test` over the address. -/
def answerSignature : Bytes :=
  [15, 99, 39, 160, 42, 127, 237, 128, 71, 71, 247, 164, 214, 145, 47, 152, 100, 171, 233, 25,
    107, 116, 106, 222, 194, 42, 224, 195, 195, 84, 65, 178, 237, 64, 27, 240, 125, 1, 58, 112,
    180, 222, 119, 207, 158, 57, 222, 34, 171, 240, 210, 113, 209, 194, 73, 140, 227, 40, 38,
    178, 52, 219, 116, 5]

def answerSigned : Bytes :=
  [0, 1, 15, 2, 0, 0, 14, 16, 101, 236, 135, 128, 100, 187, 90, 128, 247, 209, 4, 116, 101,
    115, 116, 0, 1, 97, 4, 116, 101, 115, 116, 0, 0, 1, 0, 1, 0, 0, 14, 16, 0, 4, 192, 0, 2, 1]

/-- Its signature over the name of its server, `a.test`. -/
def nsSignature : Bytes :=
  [43, 253, 98, 203, 235, 147, 119, 98, 35, 102, 87, 233, 53, 187, 160, 85, 214, 109, 205, 68,
    203, 17, 83, 180, 62, 174, 195, 172, 254, 70, 245, 181, 73, 85, 113, 128, 154, 32, 56, 222,
    232, 27, 176, 139, 246, 64, 251, 91, 92, 156, 155, 226, 117, 53, 227, 42, 189, 227, 254, 207,
    106, 69, 117, 12]

def nsSigned : Bytes :=
  [0, 2, 15, 1, 0, 0, 14, 16, 101, 236, 135, 128, 100, 187, 90, 128, 247, 209, 4, 116, 101,
    115, 116, 0, 4, 116, 101, 115, 116, 0, 0, 2, 0, 1, 0, 0, 14, 16, 0, 8, 1, 97, 4, 116, 101,
    115, 116, 0]

/-- Ed25519 on the key of `test` and these records. -/
def answerCrypto : Crypto :=
  { sampleCrypto with
    ed25519 := fun publicKey data signature =>
      (publicKey, data, signature) = (sampleZoneKey, answerSigned, answerSignature) ∨
        (publicKey, data, signature) = (sampleZoneKey, nsSigned, nsSignature) }

def answerRrsig : ResourceRecord :=
  sampleSignature [1, 97, 4, 116, 101, 115, 116, 0] 1 2 63441 sampleZoneName answerSignature

/-- A signature by the same zone over its NS records, as it stands in the
authority section of the answer. -/
def nsRrsig : ResourceRecord :=
  sampleSignature sampleZoneName 2 1 63441 sampleZoneName nsSignature

theorem further_signatures_alone :
    validateDnssec answerCrypto 1700000000 true [signedAnswer] [answerRrsig]
      [ed25519Record sampleZoneName sampleZoneKey] = .secure := by
  have hsecure : validateRrset answerCrypto 1700000000 answerRrsig [signedAnswer]
      [ed25519Record sampleZoneName sampleZoneKey] = .secure := by decide +kernel
  have hpass : ∀ other ∈ [answerRrsig], Passes answerCrypto 1700000000 [signedAnswer]
      [ed25519Record sampleZoneName sampleZoneKey] other := by
    intro other hother s hs
    rw [List.mem_singleton.mp hother] at hs ⊢
    exact (validateRrset_of_parsed hs).mp hsecure
  exact (further_signatures_iff answerCrypto 1700000000 true [signedAnswer] [answerRrsig]
    [ed25519Record sampleZoneName sampleZoneKey] answerRrsig (List.mem_singleton_self _)
    hsecure).mpr ⟨rfl, hpass⟩

/-- Next to the signature over the NS records, which is genuine too, the verified
answer is bogus. -/
theorem nsRrsig_spoils_answer :
    validateRrset answerCrypto 1700000000 answerRrsig [signedAnswer]
        [ed25519Record sampleZoneName sampleZoneKey] = .secure ∧
      validateRrset answerCrypto 1700000000 nsRrsig
        [sampleRecord sampleZoneName 2 (.ns [1, 97, 4, 116, 101, 115, 116, 0])]
        [ed25519Record sampleZoneName sampleZoneKey] = .secure ∧
      answerRrsig.name = signedAnswer.name ∧
      rrsigTypeCovered answerRrsig = some signedAnswer.rtype ∧
      validateDnssec answerCrypto 1700000000 true [signedAnswer] [answerRrsig, nsRrsig]
        [ed25519Record sampleZoneName sampleZoneKey] =
          .bogus "No matching DNSKEY found for RRSIG" := by
  have hsecure : validateRrset answerCrypto 1700000000 answerRrsig [signedAnswer]
      [ed25519Record sampleZoneName sampleZoneKey] = .secure := by decide +kernel
  have hns : validateRrset answerCrypto 1700000000 nsRrsig
      [sampleRecord sampleZoneName 2 (.ns [1, 97, 4, 116, 101, 115, 116, 0])]
      [ed25519Record sampleZoneName sampleZoneKey] = .secure := by decide +kernel
  have hbogus : validateDnssec answerCrypto 1700000000 true [signedAnswer] [answerRrsig, nsRrsig]
      [ed25519Record sampleZoneName sampleZoneKey] =
        .bogus "No matching DNSKEY found for RRSIG" := by decide +kernel
  exact ⟨hsecure, hns, rfl, rfl, hbogus⟩

end FastDns.Resolver
