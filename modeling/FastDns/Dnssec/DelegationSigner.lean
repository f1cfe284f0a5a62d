/-
The two checks of DNSKEYs against DS records (`src/dnssec/mod.rs`).

A DS record commits to the digest of the owner name and the key. `validate_chain`
passes the name of the zone to `verify_ds`; `validate_dnskeys_against_ds`, which
`validate_dnssec_chain` uses, passes the empty string, and that is encoded as the
root. So the two digests are of different bytes, unless the zone is the root.

**`ds_checks_agree_iff`**: the checks agree for every digest function only if
the zone is the root, and for one digest function only if it does not tell the
keys of the zone from the same keys of the root. On lists in which some DS record
designates no key they agree whatever the digests are: both reject.
-/

import FastDns.Dnssec.CanonicalName
import FastDns.Dnssec.ChainOfTrust

namespace FastDns.Dnssec

open FastDns.Lib FastDns.Dns

/-- Every DS record is matched by a key, as a DS record of the zone. -/
def EveryDsMatched (crypto : Crypto) (zone : Bytes) (dnskeys dsRecords : List ResourceRecord) :
    Prop :=
  ∀ ds ∈ dsRecords, ∃ dk ∈ dnskeys, verifyDs crypto ds dk zone = true

/-- On the DNSKEY and DS records of the owner, the check of the resolver decides
whether every DS record is matched as one of the zone. -/
def DsChecksAgree (crypto : Crypto) (zone owner : Bytes) : Prop :=
  ∀ dnskeys dsRecords, dsRecords ≠ [] → (∀ r ∈ dnskeys ++ dsRecords, r.name = owner) →
    (validateDnskeysAgainstDs crypto dnskeys dsRecords = true ↔
      EveryDsMatched crypto zone dnskeys dsRecords)

/-- A key of the zone has the digests it would have in the root. -/
def DigestsCoincide (crypto : Crypto) (zone : Bytes) : Prop :=
  ∀ flags protocol algorithm publicKey,
    let key := dnskeyRdata flags protocol algorithm publicKey
    crypto.sha256 (nameToWire zone ++ key) = crypto.sha256 (0 :: key) ∧
      crypto.sha384 (nameToWire zone ++ key) = crypto.sha384 (0 :: key)

/-- The DS record names the key by tag and algorithm; digests are not looked at. -/
def Designates (ds dk : ResourceRecord) : Prop :=
  ∃ d k, ds.parsed = some (.ds d) ∧ dk.parsed = some (.dnskey k) ∧
    computeKeyTag k.flags k.protocol k.algorithm k.publicKey = d.keyTag ∧
    k.algorithm = d.algorithm

section Checks

variable {crypto : Crypto} {zone owner : Bytes} {dnskeys dsRecords : List ResourceRecord}

/-- The check of the resolver is the check for the root. -/
theorem validateDnskeysAgainstDs_iff (hds : dsRecords ≠ []) :
    validateDnskeysAgainstDs crypto dnskeys dsRecords = true ↔
      EveryDsMatched crypto [] dnskeys dsRecords := by
  rw [validateDnskeysAgainstDs]
  by_cases hkeys : dnskeys = []
  · have hempty : (dnskeys.isEmpty || dsRecords.isEmpty) = true := by simp [hkeys]
    rw [if_pos hempty]
    constructor
    · intro h
      cases h
    · intro h
      obtain ⟨ds, hmem⟩ := List.exists_mem_of_ne_nil _ hds
      obtain ⟨dk, hdk, _⟩ := h ds hmem
      rw [hkeys] at hdk
      cases hdk
  · have hsome : ¬ (dnskeys.isEmpty || dsRecords.isEmpty) = true := by simp [hkeys, hds]
    rw [if_neg hsome]
    simp only [List.all_eq_true, List.any_eq_true, EveryDsMatched]

/-- A DS record matches only keys that it designates. -/
theorem verifyDs_designates {ds dk : ResourceRecord} (h : verifyDs crypto ds dk zone = true) :
    Designates ds dk := by
  rw [verifyDs] at h
  split at h
  · rename_i d k hds hdk
    split at h
    · cases h
    · rename_i hnamed
      obtain ⟨htag, halgorithm⟩ := not_or.mp hnamed
      exact ⟨d, k, hds, hdk, not_ne_iff.mp htag, not_ne_iff.mp halgorithm⟩
  · cases h

/-- A DS record that designates no key is not matched, in any zone. -/
theorem not_everyDsMatched (h : ∃ ds ∈ dsRecords, ∀ dk ∈ dnskeys, ¬ Designates ds dk) :
    ¬ EveryDsMatched crypto zone dnskeys dsRecords := by
  obtain ⟨ds, hds, hnone⟩ := h
  intro hmatched
  obtain ⟨dk, hdk, hverified⟩ := hmatched ds hds
  exact hnone dk hdk (verifyDs_designates hverified)

/-- A key of the owner, and a DS record that commits to it by the digest. -/
def committedKey (owner : Bytes) (k : Dnskey) : ResourceRecord := sampleRecord owner 48 (.dnskey k)

def committingDs (owner : Bytes) (k : Dnskey) (digestType : UInt8) (digest : Bytes) :
    ResourceRecord :=
  sampleRecord owner 43 (.ds ⟨computeKeyTag k.flags k.protocol k.algorithm k.publicKey, k.algorithm,
    digestType, digest⟩)

theorem verifyDs_sha256 (k : Dnskey) (digest : Bytes) :
    verifyDs crypto (committingDs owner k 2 digest) (committedKey owner k) zone = true ↔
      crypto.sha256 (nameToWire zone ++ dnskeyRdata k.flags k.protocol k.algorithm k.publicKey) =
        digest := by
  simp [verifyDs, committingDs, committedKey, sampleRecord]

theorem verifyDs_sha384 (k : Dnskey) (digest : Bytes) :
    verifyDs crypto (committingDs owner k 4 digest) (committedKey owner k) zone = true ↔
      crypto.sha384 (nameToWire zone ++ dnskeyRdata k.flags k.protocol k.algorithm k.publicKey) =
        digest := by
  simp [verifyDs, committingDs, committedKey, sampleRecord]

/-- A zone whose keys have the digests of the root is checked like the root. -/
theorem verifyDs_congr (h : DigestsCoincide crypto zone) (ds dk : ResourceRecord) :
    verifyDs crypto ds dk zone = verifyDs crypto ds dk [] := by
  have hroot : nameToWire [] = [0] := rfl
  rw [verifyDs, verifyDs]
  split
  · rename_i d k _ _
    obtain ⟨h256, h384⟩ := h k.flags k.protocol k.algorithm k.publicKey
    simp only [hroot, List.singleton_append, h256, h384]
  · rfl

theorem dsChecksAgree_iff_digestsCoincide :
    DsChecksAgree crypto zone owner ↔ DigestsCoincide crypto zone := by
  constructor
  · intro hagree flags protocol algorithm publicKey key
    -- One key, and a DS record that commits to it in the zone.
    have honly : ∀ digestType digest,
        verifyDs crypto (committingDs owner ⟨flags, protocol, algorithm, publicKey⟩ digestType
          digest) (committedKey owner ⟨flags, protocol, algorithm, publicKey⟩) zone = true →
        verifyDs crypto (committingDs owner ⟨flags, protocol, algorithm, publicKey⟩ digestType
          digest) (committedKey owner ⟨flags, protocol, algorithm, publicKey⟩) [] = true := by
      intro digestType digest hds
      have hchecks := hagree [committedKey owner ⟨flags, protocol, algorithm, publicKey⟩]
        [committingDs owner ⟨flags, protocol, algorithm, publicKey⟩ digestType digest]
        (List.cons_ne_nil _ _) (by simp [committedKey, committingDs, sampleRecord])
      rw [validateDnskeysAgainstDs_iff (List.cons_ne_nil _ _)] at hchecks
      simp only [EveryDsMatched, List.mem_singleton, forall_eq, exists_eq_left] at hchecks
      exact hchecks.mpr hds
    have h256 := (verifyDs_sha256 _ _).mp (honly 2 _ ((verifyDs_sha256 _ _).mpr rfl))
    have h384 := (verifyDs_sha384 _ _).mp (honly 4 _ ((verifyDs_sha384 _ _).mpr rfl))
    exact ⟨h256.symm, h384.symm⟩
  · intro hcoincide dnskeys dsRecords hds _
    rw [validateDnskeysAgainstDs_iff hds]
    simp only [EveryDsMatched, verifyDs_congr hcoincide]

/-- Only the root is encoded as the root. -/
theorem nameToWire_eq_root : nameToWire zone = [0] ↔ trimEndDots zone = [] := by
  constructor
  · intro h
    by_cases hlabels : LabelsOk (textLabels zone)
    · rw [nameToWire_of_labelsOk hlabels] at h
      have hnone : lowerAll (textLabels zone) = [] :=
        wireName_inj hlabels.lowerAll labelsOk_nil h
      have htext := List.map_eq_nil_iff.mp hnone
      by_contra hroot
      rw [textLabels, if_neg hroot] at htext
      exact List.splitOn_ne_nil _ _ htext
    · rw [nameToWire_of_not_labelsOk hlabels] at h
      cases h
  · intro hroot
    have hnone : textLabels zone = [] := if_pos hroot
    have hlabels : LabelsOk (textLabels zone) := by
      rw [hnone]
      exact labelsOk_nil
    rw [nameToWire_of_labelsOk hlabels, hnone]
    rfl

/-- Digests that show everything. -/
def Crypto.identity : Crypto where
  rsaSha256 _ _ _ _ := false
  ecdsaP256Fixed _ _ _ := false
  ecdsaP256Der _ _ _ := false
  ecdsaP384Fixed _ _ _ := false
  ecdsaP384Der _ _ _ := false
  ed25519 _ _ _ := false
  sha256 input := input
  sha384 input := input

end Checks

/-- **The two DS checks agree for every digest function exactly when the zone is
the root**, and for one digest function exactly when it maps the keys of the zone
to the digests they would have in the root. On lists with a DS record that designates
none of the keys they agree for every zone and every digest function. -/
theorem ds_checks_agree_iff (zone owner : Bytes) :
    ((∀ crypto, DsChecksAgree crypto zone owner) ↔ trimEndDots zone = []) ∧
      (∀ crypto, DsChecksAgree crypto zone owner ↔ DigestsCoincide crypto zone) ∧
      ∀ crypto dnskeys dsRecords, (∃ ds ∈ dsRecords, ∀ dk ∈ dnskeys, ¬ Designates ds dk) →
        (validateDnskeysAgainstDs crypto dnskeys dsRecords = true ↔
          EveryDsMatched crypto zone dnskeys dsRecords) := by
  refine ⟨?_, fun crypto => dsChecksAgree_iff_digestsCoincide, fun crypto dnskeys dsRecords h => ?_⟩
  · rw [← nameToWire_eq_root]
    constructor
    · intro hagree
      obtain ⟨hsame, _⟩ := dsChecksAgree_iff_digestsCoincide.mp (hagree .identity) 0 0 0 []
      have hnames : nameToWire zone ++ dnskeyRdata 0 0 0 [] = [0] ++ dnskeyRdata 0 0 0 [] := hsame
      exact List.append_cancel_right hnames
    · intro hroot crypto
      rw [dsChecksAgree_iff_digestsCoincide]
      intro flags protocol algorithm publicKey
      rw [hroot]
      exact ⟨rfl, rfl⟩
  · have hds : dsRecords ≠ [] := List.ne_nil_of_mem h.choose_spec.1
    rw [validateDnskeysAgainstDs_iff hds]
    exact iff_of_false (not_everyDsMatched h) (not_everyDsMatched h)

/-- The DS record of the zone `test`. -/
def sampleZoneDs : ResourceRecord :=
  sampleRecord sampleZoneName 43 (.ds ⟨63441, 15, 2, sampleDigest⟩)

/-- It commits to the key of the zone, and the resolver's check rejects the pair. -/
theorem sampleZone_ds_rejected :
    verifyDs sampleCrypto sampleZoneDs (ed25519Record sampleZoneName sampleZoneKey) sampleZone =
        true ∧
      validateDnskeysAgainstDs sampleCrypto [ed25519Record sampleZoneName sampleZoneKey]
        [sampleZoneDs] = false ∧
      ¬ DsChecksAgree sampleCrypto sampleZone sampleZoneName := by
  have hzone : verifyDs sampleCrypto sampleZoneDs (ed25519Record sampleZoneName sampleZoneKey)
      sampleZone = true := by decide +kernel
  have hcheck : validateDnskeysAgainstDs sampleCrypto
      [ed25519Record sampleZoneName sampleZoneKey] [sampleZoneDs] = false := by decide +kernel
  have hmatched : EveryDsMatched sampleCrypto sampleZone
      [ed25519Record sampleZoneName sampleZoneKey] [sampleZoneDs] := by
    intro ds hds
    rw [List.mem_singleton.mp hds]
    exact ⟨_, List.mem_singleton_self _, hzone⟩
  have hdisagree : ¬ DsChecksAgree sampleCrypto sampleZone sampleZoneName := by
    intro hagree
    have haccepted := (hagree [ed25519Record sampleZoneName sampleZoneKey] [sampleZoneDs]
      (List.cons_ne_nil _ _) (by decide +kernel)).mpr hmatched
    rw [hcheck] at haccepted
    cases haccepted
  exact ⟨hzone, hcheck, hdisagree⟩

end FastDns.Dnssec
