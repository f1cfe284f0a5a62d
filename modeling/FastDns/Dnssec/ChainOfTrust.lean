/-
The chain of trust of `src/dnssec/mod.rs`: `validate_chain` and what it calls.

A validation is a program over `World` and `ValidationSt`. The world holds the
clocks, the random query ids, what servers send back and what other tasks do to
the cache; each reading has its number, so a world is an arbitrary oracle. The
state has the shared cache and the counters.

`validateChain` takes the two fetches as arguments. `TrustChain` is what a secure
verdict should mean: the links of the chain, each with the state in which the
walk reached it. `validateChain_sound` shows that it does, whatever the fetches
return.
-/

import FastDns.Dns.Message
import FastDns.Dnssec.Validate
import FastDns.Lib.Run
import FastDns.Resolver.Cache

namespace FastDns.Dnssec

open FastDns.Lib FastDns.Dns FastDns.Resolver

/-! ### Environment and state -/

/-- `DnssecStatus` -/
inductive DnssecStatus where
  | secure
  | insecure
  | bogus
  | indeterminate
deriving DecidableEq, Repr

/-- `std::net::SocketAddr` -/
structure SocketAddr where
  ip : IpAddr
  port : UInt16
deriving DecidableEq, Repr

/-- What becomes of a query: the socket fails, nothing ever comes back, or a
datagram does. -/
inductive Receipt where
  | failed
  | silent
  | datagram (bytes : Bytes)
deriving DecidableEq, Repr

/-- The outside world. Each reading has its number. -/
structure World where
  crypto : Crypto
  receive : Nat → Bytes → SocketAddr → Receipt
  clock : Nat → Nat
  wall : Nat → UInt32
  queryId : Nat → UInt16
  /-- What other tasks do to the cache before this one gets hold of it. -/
  others : Nat → History
  /-- `str::to_lowercase`, which follows the Unicode tables. -/
  toLowercase : Bytes → Bytes

/-- `ValidationStats` -/
structure ValidationStats where
  dnskeyCacheHits : UInt16
  dnskeyFetches : UInt16
  dsCacheHits : UInt16
  dsFetches : UInt16
  elapsedMs : UInt64
deriving DecidableEq, Repr

structure ValidationSt where
  cache : DnsCache
  stats : ValidationStats
  tick : Nat

/-- Programs of the validator. -/
abbrev Validate := Run World ValidationSt DnsError

/-- The number of the next reading. -/
def nextReading : Validate Nat := do
  let s ← Run.get
  Run.modify fun s => { s with tick := s.tick + 1 }
  pure s.tick

/-- `SystemTime::now()`, in seconds as `u32`. -/
def readSystemTime : Validate UInt32 := do
  let world ← Run.read
  let n ← nextReading
  pure (world.wall n)

/-! ### Signatures over an RRset -/

/-- The records of a type. -/
def rrsetOf (rtype : UInt16) (records : List ResourceRecord) : List ResourceRecord :=
  records.filter fun r => r.rtype = rtype

def isDnskey (r : ResourceRecord) : Bool :=
  match r.parsed with
  | some (.dnskey _) => true
  | _ => false

def isDs (r : ResourceRecord) : Bool :=
  match r.parsed with
  | some (.ds _) => true
  | _ => false

/-- A parsed signature over records of the type. -/
def coversType (rtype : UInt16) (r : ResourceRecord) : Bool :=
  match r.parsed with
  | some (.rrsig s) => s.typeCovered = rtype
  | _ => false

/-- `same_dnskey`, of two records. -/
def sameDnskeyRecords (a b : ResourceRecord) : Bool :=
  match a.parsed, b.parsed with
  | some (.dnskey ak), some (.dnskey bk) =>
      ak.algorithm = bk.algorithm && ak.publicKey = bk.publicKey
  | _, _ => false

/-- `rrsig_verified_by`. The clock is read only for a key with the algorithm and
the tag of the signature. -/
def rrsigVerifiedBy (rrsig dk : ResourceRecord) (rrset : List ResourceRecord) : Validate Bool :=
  match rrsig.parsed, dk.parsed with
  | some (.rrsig s), some (.dnskey k) =>
      if k.algorithm = s.algorithm ∧
          computeKeyTag k.flags k.protocol k.algorithm k.publicKey = s.keyTag then do
        let world ← Run.read
        let now ← readSystemTime
        pure (isRrsigTimeValid now s.signatureExpiration s.signatureInception &&
          verifySignature world.crypto s.algorithm k.publicKey (buildSignedData rrsig rrset)
            s.signature)
      else pure false
  | _, _ => pure false

/-- `verify_rrset_signed` -/
def verifyRrsetSigned (records : List ResourceRecord) (rrsetType : UInt16)
    (signingKeys : List ResourceRecord) : Validate Bool :=
  if (rrsetOf rrsetType records).isEmpty then pure false
  else records.anyM fun r =>
    if coversType rrsetType r then
      signingKeys.anyM fun dk => rrsigVerifiedBy r dk (rrsetOf rrsetType records)
    else pure false

/-! ### The walk -/

/-- `MAX_CHAIN_DEPTH` -/
def maxChainDepth : Nat := 10

/-- `parent_zone_str` -/
def parentZoneStr (zone : Bytes) : Bytes :=
  if zone = [46] ∨ zone = [] then [46]
  else match zone.dropWhile (· != 46) with
    | _ :: parent => parent
    | [] => [46]

/-- `ds_authenticated_ksks`: the keys of a zone that a DS record commits to. -/
def dsAuthenticatedKsks (crypto : Crypto) (zone : Bytes)
    (zoneRecords dsResponse : List ResourceRecord) : List ResourceRecord :=
  (zoneRecords.filter isDnskey).filter fun dk =>
    (dsResponse.filter isDs).any fun ds => verifyDs crypto ds dk zone

section Walk

variable (fetchDs fetchDnskeys : Bytes → Validate (List ResourceRecord))
  (trustAnchors : List ResourceRecord)

/-- The body of `validate_chain`, with the number of levels the depth limit still
allows. -/
def validateChainFrom : Nat → Bytes → List ResourceRecord → Validate DnssecStatus
  | 0, _, _ => pure .indeterminate
  | remaining + 1, zone, zoneRecords => do
      let world ← Run.read
      if (zoneRecords.filter isDnskey).any fun dk => trustAnchors.any (sameDnskeyRecords dk) then
        let signed ← verifyRrsetSigned zoneRecords 48 trustAnchors
        pure (if signed then .secure else .bogus)
      else if zone = [46] ∨ zone = [] then pure .indeterminate
      else
        let parent := parentZoneStr zone
        let dsResponse ← fetchDs zone
        if (dsResponse.filter isDs).isEmpty then pure .insecure
        else
          let ksks := dsAuthenticatedKsks world.crypto zone zoneRecords dsResponse
          if ksks.isEmpty then pure .bogus
          else
            let signed ← verifyRrsetSigned zoneRecords 48 ksks
            if !signed then pure .bogus
            else
              let parentRecords ← fetchDnskeys parent
              if parentRecords.isEmpty then pure .indeterminate
              else
                let parentStatus ← validateChainFrom remaining parent parentRecords
                if parentStatus ≠ .secure then pure parentStatus
                else
                  let dsSigned ← verifyRrsetSigned dsResponse 43 parentRecords
                  pure (if dsSigned then .secure else .bogus)

/-- `validate_chain` -/
def validateChain (depth : UInt8) (zone : Bytes) (zoneRecords : List ResourceRecord) :
    Validate DnssecStatus :=
  validateChainFrom fetchDs fetchDnskeys trustAnchors (maxChainDepth + 1 - depth.toNat) zone
    zoneRecords

end Walk

/-! ### What a secure verdict means -/

/-- Parsed keys, delegation signers and signatures stand only in records of their
own type, as in everything the parser builds. -/
structure ParserBuilt (r : ResourceRecord) : Prop where
  dnskey : ∀ k, r.parsed = some (.dnskey k) → r.rtype = 48
  ds : ∀ d, r.parsed = some (.ds d) → r.rtype = 43
  rrsig : ∀ s, r.parsed = some (.rrsig s) → r.rtype = 46

/-- The clock is read, and nothing else happens. -/
def Reads (s s' : ValidationSt) : Prop := s' = { s with tick := s'.tick } ∧ s.tick ≤ s'.tick

/-- At the given reading of the clock, the signature is valid and the key
verifies it. -/
def VerifiedAt (world : World) (n : Nat) (rrsig dk : ResourceRecord)
    (rrset : List ResourceRecord) : Prop :=
  ∃ s k, rrsig.parsed = some (.rrsig s) ∧ dk.parsed = some (.dnskey k) ∧
    k.algorithm = s.algorithm ∧
    computeKeyTag k.flags k.protocol k.algorithm k.publicKey = s.keyTag ∧
    isRrsigTimeValid (world.wall n) s.signatureExpiration s.signatureInception = true ∧
    verifySignature world.crypto s.algorithm k.publicKey (buildSignedData rrsig rrset)
      s.signature = true

/-- Between two states of a run, `dk` was found to have signed the records of a
type. -/
def SignedBetween (world : World) (s s' : ValidationSt) (records : List ResourceRecord)
    (rrsetType : UInt16) (dk : ResourceRecord) : Prop :=
  Reads s s' ∧ ∃ r ∈ rrsetOf 46 records, coversType rrsetType r = true ∧
    ∃ n, s.tick ≤ n ∧ n < s'.tick ∧ VerifiedAt world n r dk (rrsetOf rrsetType records)

/-- A chain of `k` links from a zone and its records up to a trust anchor, walked
from one state to another. The key a DS record names is in the DNSKEY RRset it
signs, and the DS RRset is signed by a key in the RRset of the next link. -/
inductive TrustChain (world : World) (fetchDs fetchDnskeys : Bytes → Validate (List ResourceRecord))
    (trustAnchors : List ResourceRecord) :
    Nat → Bytes → List ResourceRecord → ValidationSt → ValidationSt → Prop where
  | anchor {zone : Bytes} {records : List ResourceRecord} {s s' : ValidationSt}
      {dk ta signer : ResourceRecord} :
      dk ∈ rrsetOf 48 records → ta ∈ trustAnchors → sameDnskeyRecords dk ta = true →
      signer ∈ trustAnchors → SignedBetween world s s' records 48 signer →
      TrustChain world fetchDs fetchDnskeys trustAnchors 0 zone records s s'
  | link {k : Nat} {zone : Bytes} {records dsRecords parentRecords : List ResourceRecord}
      {s s₁ s₂ s₃ s₄ s₅ : ValidationSt} {dk ds parentKey : ResourceRecord} :
      fetchDs zone world s = .ok (dsRecords, s₁) →
      dk ∈ rrsetOf 48 records → ds ∈ rrsetOf 43 dsRecords →
      verifyDs world.crypto ds dk zone = true → SignedBetween world s₁ s₂ records 48 dk →
      fetchDnskeys (parentZoneStr zone) world s₂ = .ok (parentRecords, s₃) →
      TrustChain world fetchDs fetchDnskeys trustAnchors k (parentZoneStr zone) parentRecords
        s₃ s₄ →
      parentKey ∈ rrsetOf 48 parentRecords → SignedBetween world s₄ s₅ dsRecords 43 parentKey →
      TrustChain world fetchDs fetchDnskeys trustAnchors (k + 1) zone records s s₅

/-! ### One spec lemma per check -/

section Spec

variable {world : World} {s s' : ValidationSt}

theorem Reads.refl (s : ValidationSt) : Reads s s := ⟨rfl, Nat.le_refl _⟩

theorem Reads.trans {s₁ s₂ s₃ : ValidationSt} (h₁ : Reads s₁ s₂) (h₂ : Reads s₂ s₃) :
    Reads s₁ s₃ := by
  obtain ⟨heq₁, hle₁⟩ := h₁
  obtain ⟨heq₂, hle₂⟩ := h₂
  refine ⟨?_, Nat.le_trans hle₁ hle₂⟩
  rw [heq₂, heq₁]

/-- Either the clock is read and the signature checked, or the answer is no. -/
theorem rrsigVerifiedBy_cases (rrsig dk : ResourceRecord) (rrset : List ResourceRecord) :
    (∃ sig k, rrsig.parsed = some (.rrsig sig) ∧ dk.parsed = some (.dnskey k) ∧
      k.algorithm = sig.algorithm ∧
      computeKeyTag k.flags k.protocol k.algorithm k.publicKey = sig.keyTag ∧
      rrsigVerifiedBy rrsig dk rrset = fun world s =>
        .ok (isRrsigTimeValid (world.wall s.tick) sig.signatureExpiration sig.signatureInception &&
          verifySignature world.crypto sig.algorithm k.publicKey (buildSignedData rrsig rrset)
            sig.signature, { s with tick := s.tick + 1 })) ∨
      rrsigVerifiedBy rrsig dk rrset = pure false := by
  unfold rrsigVerifiedBy
  split
  · rename_i sig k hsig hkey
    split
    · rename_i hmatch
      exact .inl ⟨sig, k, hsig, hkey, hmatch.1, hmatch.2, rfl⟩
    · exact .inr rfl
  · exact .inr rfl

theorem rrsigVerifiedBy_ok {rrsig dk : ResourceRecord} {rrset : List ResourceRecord} {b : Bool}
    (h : rrsigVerifiedBy rrsig dk rrset world s = .ok (b, s')) :
    Reads s s' ∧ (b = true → s.tick < s'.tick ∧ VerifiedAt world s.tick rrsig dk rrset) := by
  rcases rrsigVerifiedBy_cases rrsig dk rrset with
    ⟨sig, k, hsig, hkey, halgorithm, htag, heq⟩ | heq
  · rw [heq] at h
    cases h
    refine ⟨⟨rfl, Nat.le_succ _⟩, fun hb => ⟨Nat.lt_succ_self _, sig, k, hsig, hkey, halgorithm,
      htag, ?_⟩⟩
    simpa using hb
  · rw [heq] at h
    cases h
    exact ⟨Reads.refl _, fun hb => by cases hb⟩

/-- The search over the keys, for one signature. -/
theorem anyKey_ok {r : ResourceRecord} {rrset keys : List ResourceRecord} {b : Bool}
    (h : (keys.anyM fun dk => rrsigVerifiedBy r dk rrset) world s = .ok (b, s')) :
    Reads s s' ∧ (b = true → ∃ dk ∈ keys, ∃ n, s.tick ≤ n ∧ n < s'.tick ∧
      VerifiedAt world n r dk rrset) := by
  have hround : ∀ dk t b t', rrsigVerifiedBy r dk rrset world t = .ok (b, t') → Reads t t' :=
    fun dk t b t' hv => (rrsigVerifiedBy_ok hv).1
  refine ⟨Run.anyM_rel Reads.refl Reads.trans hround h, ?_⟩
  rintro rfl
  obtain ⟨dk, hdk, s₁, hreads, hv⟩ := Run.anyM_true Reads.refl Reads.trans hround h
  obtain ⟨hlt, hverified⟩ := (rrsigVerifiedBy_ok hv).2 rfl
  exact ⟨dk, hdk, s₁.tick, hreads.2, hlt, hverified⟩

theorem mem_rrsetOf {rtype : UInt16} {records : List ResourceRecord} {r : ResourceRecord} :
    r ∈ rrsetOf rtype records ↔ r ∈ records ∧ r.rtype = rtype := by
  simp [rrsetOf]

theorem ParserBuilt.rtype_of_coversType {r : ResourceRecord} (hr : ParserBuilt r)
    {rrsetType : UInt16} (h : coversType rrsetType r = true) : r.rtype = 46 := by
  unfold coversType at h
  split at h
  · rename_i sig hsig
    exact hr.rrsig sig hsig
  · cases h

theorem ParserBuilt.mem_rrsetOf_dnskey {records : List ResourceRecord} {dk : ResourceRecord}
    (hbuilt : ∀ r ∈ records, ParserBuilt r) (hdk : dk ∈ records) (hparsed : isDnskey dk = true) :
    dk ∈ rrsetOf 48 records := by
  unfold isDnskey at hparsed
  split at hparsed
  · rename_i k hk
    exact mem_rrsetOf.mpr ⟨hdk, (hbuilt dk hdk).dnskey k hk⟩
  · cases hparsed

theorem ParserBuilt.mem_rrsetOf_ds {records : List ResourceRecord} {ds : ResourceRecord}
    (hbuilt : ∀ r ∈ records, ParserBuilt r) (hds : ds ∈ records) (hparsed : isDs ds = true) :
    ds ∈ rrsetOf 43 records := by
  unfold isDs at hparsed
  split at hparsed
  · rename_i d hd
    exact mem_rrsetOf.mpr ⟨hds, (hbuilt ds hds).ds d hd⟩
  · cases hparsed

theorem VerifiedAt.isDnskey {n : Nat} {r dk : ResourceRecord} {rrset : List ResourceRecord}
    (h : VerifiedAt world n r dk rrset) : isDnskey dk = true := by
  obtain ⟨_, k, _, hk, _⟩ := h
  rw [Dnssec.isDnskey, hk]

/-- `verify_rrset_signed` only reads the clock, and a yes comes from a signature
that one of the keys verified. -/
theorem verifyRrsetSigned_spec {records signingKeys : List ResourceRecord} {rrsetType : UInt16}
    {b : Bool} (h : verifyRrsetSigned records rrsetType signingKeys world s = .ok (b, s')) :
    Reads s s' ∧ (b = true → ∃ r ∈ records, coversType rrsetType r = true ∧ ∃ dk ∈ signingKeys,
      ∃ n, s.tick ≤ n ∧ n < s'.tick ∧ VerifiedAt world n r dk (rrsetOf rrsetType records)) := by
  unfold verifyRrsetSigned at h
  split at h
  · cases h
    exact ⟨Reads.refl _, fun hb => by cases hb⟩
  have hround : ∀ r t b t', (if coversType rrsetType r then
      signingKeys.anyM fun dk => rrsigVerifiedBy r dk (rrsetOf rrsetType records)
      else pure false : Validate Bool) world t = .ok (b, t') → Reads t t' := by
    intro r t b t' hr
    split at hr
    · exact (anyKey_ok hr).1
    · cases hr
      exact Reads.refl _
  refine ⟨Run.anyM_rel Reads.refl Reads.trans hround h, ?_⟩
  rintro rfl
  obtain ⟨r, hr, s₁, hbefore, hhit⟩ := Run.anyM_true Reads.refl Reads.trans hround h
  split at hhit
  · rename_i hcovers
    obtain ⟨dk, hdk, n, hn, hlt, hverified⟩ := (anyKey_ok hhit).2 rfl
    exact ⟨r, hr, hcovers, dk, hdk, n, Nat.le_trans hbefore.2 hn, hlt, hverified⟩
  · cases hhit

/-- Among records the parser built, the signature is a record of its own type. -/
theorem verifyRrsetSigned_ok {records signingKeys : List ResourceRecord} {rrsetType : UInt16}
    {b : Bool} (hbuilt : ∀ r ∈ records, ParserBuilt r)
    (h : verifyRrsetSigned records rrsetType signingKeys world s = .ok (b, s')) (hb : b = true) :
    ∃ dk ∈ signingKeys, isDnskey dk = true ∧ SignedBetween world s s' records rrsetType dk := by
  obtain ⟨hreads, hsigned⟩ := verifyRrsetSigned_spec h
  obtain ⟨r, hr, hcovers, dk, hdk, n, hn, hlt, hverified⟩ := hsigned hb
  exact ⟨dk, hdk, hverified.isDnskey, hreads, r,
    mem_rrsetOf.mpr ⟨hr, (hbuilt r hr).rtype_of_coversType hcovers⟩, hcovers, n, hn, hlt,
    hverified⟩

end Spec

/-! ### Soundness of the walk -/

section Soundness

variable {world : World} {fetchDs fetchDnskeys : Bytes → Validate (List ResourceRecord)}
  {trustAnchors : List ResourceRecord}

theorem mem_dsAuthenticatedKsks {crypto : Crypto} {zone : Bytes}
    {zoneRecords dsResponse : List ResourceRecord} {dk : ResourceRecord}
    (h : dk ∈ dsAuthenticatedKsks crypto zone zoneRecords dsResponse) :
    dk ∈ zoneRecords ∧ ∃ ds ∈ dsResponse, isDs ds = true ∧ verifyDs crypto ds dk zone = true := by
  simp only [dsAuthenticatedKsks, List.mem_filter, List.any_eq_true] at h
  obtain ⟨⟨hdk, _⟩, ds, ⟨hds, hparsed⟩, hverified⟩ := h
  exact ⟨hdk, ds, hds, hparsed, hverified⟩

/-- The two ways to a secure verdict, with every step of the run. -/
theorem validateChainFrom_secure_cases {remaining : Nat} {zone : Bytes}
    {zoneRecords : List ResourceRecord} {s s' : ValidationSt}
    (h : validateChainFrom fetchDs fetchDnskeys trustAnchors (remaining + 1) zone zoneRecords
      world s = .ok (.secure, s')) :
    (∃ dk ∈ zoneRecords, isDnskey dk = true ∧ ∃ ta ∈ trustAnchors, sameDnskeyRecords dk ta = true) ∧
        verifyRrsetSigned zoneRecords 48 trustAnchors world s = .ok (true, s') ∨
      ∃ dsResponse s₁ s₂ parentRecords s₃ s₄,
        fetchDs zone world s = .ok (dsResponse, s₁) ∧
        verifyRrsetSigned zoneRecords 48
          (dsAuthenticatedKsks world.crypto zone zoneRecords dsResponse) world s₁ =
            .ok (true, s₂) ∧
        fetchDnskeys (parentZoneStr zone) world s₂ = .ok (parentRecords, s₃) ∧
        validateChainFrom fetchDs fetchDnskeys trustAnchors remaining (parentZoneStr zone)
          parentRecords world s₃ = .ok (.secure, s₄) ∧
        verifyRrsetSigned dsResponse 43 parentRecords world s₄ = .ok (true, s') := by
  rw [validateChainFrom] at h
  obtain ⟨_, _, hread, h⟩ := Run.bind_eq_ok.mp h
  cases hread
  by_cases hanchor : (zoneRecords.filter isDnskey).any
      (fun dk => trustAnchors.any (sameDnskeyRecords dk)) = true
  · rw [if_pos hanchor] at h
    obtain ⟨signed, s₁, hsigned, hpure⟩ := Run.bind_eq_ok.mp h
    cases signed with
    | false => cases hpure
    | true =>
        cases hpure
        simp only [List.any_eq_true, List.mem_filter] at hanchor
        obtain ⟨dk, ⟨hdk, hparsed⟩, ta, hta, hsame⟩ := hanchor
        exact .inl ⟨⟨dk, hdk, hparsed, ta, hta, hsame⟩, hsigned⟩
  rw [if_neg hanchor] at h
  -- Every guard from here on would have refused.
  obtain ⟨_, h⟩ := Run.guard_eq_ok h fun _ => by rintro ⟨⟩
  obtain ⟨dsResponse, s₁, hds, h⟩ := Run.bind_eq_ok.mp h
  obtain ⟨_, h⟩ := Run.guard_eq_ok h fun _ => by rintro ⟨⟩
  obtain ⟨_, h⟩ := Run.guard_eq_ok h fun _ => by rintro ⟨⟩
  obtain ⟨signed, s₂, hsigned, h⟩ := Run.bind_eq_ok.mp h
  cases signed with
  | false => cases h
  | true =>
      obtain ⟨parentRecords, s₃, hparent, h⟩ := Run.bind_eq_ok.mp h
      obtain ⟨_, h⟩ := Run.guard_eq_ok h fun _ => by rintro ⟨⟩
      obtain ⟨parentStatus, s₄, hwalk, h⟩ := Run.bind_eq_ok.mp h
      obtain ⟨hstatus, h⟩ := Run.guard_eq_ok h fun hne => hne
      rw [not_not.mp hstatus] at hwalk
      obtain ⟨dsSigned, s₅, hdsSigned, hpure⟩ := Run.bind_eq_ok.mp h
      cases dsSigned with
      | false => cases hpure
      | true =>
          cases hpure
          exact .inr ⟨dsResponse, s₁, s₂, parentRecords, s₃, s₄, hds, hsigned, hparent, hwalk,
            hdsSigned⟩

/-- A secure verdict comes from a chain no longer than the levels that were left. -/
theorem validateChainFrom_sound
    (hds : ∀ zone s records s', fetchDs zone world s = .ok (records, s') →
      ∀ r ∈ records, ParserBuilt r)
    (hkeys : ∀ zone s records s', fetchDnskeys zone world s = .ok (records, s') →
      ∀ r ∈ records, ParserBuilt r)
    {remaining : Nat} {zone : Bytes} {zoneRecords : List ResourceRecord} {s s' : ValidationSt}
    (hzone : ∀ r ∈ zoneRecords, ParserBuilt r)
    (h : validateChainFrom fetchDs fetchDnskeys trustAnchors remaining zone zoneRecords world s =
      .ok (.secure, s')) :
    ∃ k < remaining,
      TrustChain world fetchDs fetchDnskeys trustAnchors k zone zoneRecords s s' := by
  induction remaining generalizing zone zoneRecords s s' with
  | zero => cases h
  | succ remaining ih =>
      rcases validateChainFrom_secure_cases h with
        ⟨⟨dk, hdk, hparsed, ta, hta, hsame⟩, hsigned⟩ |
        ⟨dsResponse, s₁, s₂, parentRecords, s₃, s₄, hfetch, hsigned, hparent, hwalk, hdsSigned⟩
      · obtain ⟨signer, hsigner, _, hbetween⟩ := verifyRrsetSigned_ok hzone hsigned rfl
        exact ⟨0, Nat.succ_pos _, .anchor (ParserBuilt.mem_rrsetOf_dnskey hzone hdk hparsed) hta
          hsame hsigner hbetween⟩
      · obtain ⟨dk, hdk, hparsed, hbetween⟩ := verifyRrsetSigned_ok hzone hsigned rfl
        obtain ⟨hmem, ds, hdsMem, hisDs, hverified⟩ := mem_dsAuthenticatedKsks hdk
        have hdsBuilt := hds zone s dsResponse s₁ hfetch
        have hparentBuilt := hkeys (parentZoneStr zone) s₂ parentRecords s₃ hparent
        obtain ⟨parentKey, hparentKey, hparentParsed, hdsBetween⟩ :=
          verifyRrsetSigned_ok hdsBuilt hdsSigned rfl
        obtain ⟨k, hk, hchain⟩ := ih hparentBuilt hwalk
        exact ⟨k + 1, Nat.succ_lt_succ hk, .link hfetch
          (ParserBuilt.mem_rrsetOf_dnskey hzone hmem hparsed)
          (ParserBuilt.mem_rrsetOf_ds hdsBuilt hdsMem hisDs) hverified hbetween hparent hchain
          (ParserBuilt.mem_rrsetOf_dnskey hparentBuilt hparentKey hparentParsed) hdsBetween⟩

/-- A chain ends at an anchor. -/
theorem TrustChain.anchors_ne_nil {k : Nat} {zone : Bytes} {records : List ResourceRecord}
    {s s' : ValidationSt}
    (h : TrustChain world fetchDs fetchDnskeys trustAnchors k zone records s s') :
    trustAnchors ≠ [] := by
  induction h with
  | anchor _ hta _ _ _ => exact List.ne_nil_of_mem hta
  | link _ _ _ _ _ _ _ _ _ ih => exact ih

/-- **A secure verdict of `validate_chain` comes from a chain of at most ten links
up to a trust anchor**, whatever the fetches return, and there is none without an
anchor. -/
theorem validateChain_sound (world : World)
    (fetchDs fetchDnskeys : Bytes → Validate (List ResourceRecord))
    (trustAnchors zoneRecords : List ResourceRecord) (depth : UInt8) (zone : Bytes)
    (s s' : ValidationSt)
    (hds : ∀ zone s records s', fetchDs zone world s = .ok (records, s') →
      ∀ r ∈ records, ParserBuilt r)
    (hkeys : ∀ zone s records s', fetchDnskeys zone world s = .ok (records, s') →
      ∀ r ∈ records, ParserBuilt r)
    (hzone : ∀ r ∈ zoneRecords, ParserBuilt r)
    (h : validateChain fetchDs fetchDnskeys trustAnchors depth zone zoneRecords world s =
      .ok (.secure, s')) :
    trustAnchors ≠ [] ∧ ∃ k, k + depth.toNat ≤ 10 ∧
      TrustChain world fetchDs fetchDnskeys trustAnchors k zone zoneRecords s s' := by
  obtain ⟨k, hk, hchain⟩ := validateChainFrom_sound hds hkeys hzone h
  refine ⟨hchain.anchors_ne_nil, k, ?_, hchain⟩
  rw [maxChainDepth] at hk
  omega

end Soundness

/-! ### A zone below a signed root -/

def sampleRootKey : Bytes :=
  [41, 172, 186, 225, 65, 188, 202, 240, 178, 46, 26, 148, 211, 77, 11, 199, 54, 30, 82, 109,
    11, 254, 18, 200, 151, 148, 188, 147, 34, 150, 109, 215]

def sampleZoneKey : Bytes :=
  [37, 67, 185, 47, 241, 9, 85, 17, 71, 106, 220, 131, 105, 219, 109, 220, 147, 54, 101, 161,
    25, 120, 221, 161, 64, 78, 225, 6, 108, 169, 85, 157]

/-- SHA-256 of the owner name `test` and the RDATA of its key. -/
def sampleDigest : Bytes :=
  [225, 149, 67, 229, 126, 41, 76, 253, 253, 188, 213, 154, 186, 255, 252, 7, 219, 156, 53, 103,
    42, 152, 208, 72, 36, 190, 111, 24, 176, 76, 196, 128]

def rootKeySignature : Bytes :=
  [78, 133, 82, 73, 201, 76, 176, 206, 194, 199, 197, 144, 65, 242, 34, 246, 85, 151, 71, 158,
    139, 91, 229, 180, 211, 71, 134, 127, 125, 31, 220, 155, 3, 23, 49, 211, 12, 42, 132, 193,
    187, 35, 86, 86, 49, 227, 90, 242, 115, 64, 103, 188, 223, 239, 110, 203, 244, 110, 182, 0,
    249, 188, 64, 10]

def zoneKeySignature : Bytes :=
  [123, 74, 80, 43, 26, 128, 110, 20, 165, 52, 223, 224, 42, 152, 92, 134, 143, 40, 28, 26, 239,
    115, 130, 179, 118, 100, 229, 103, 190, 89, 191, 108, 44, 30, 103, 80, 233, 246, 81, 129,
    20, 171, 227, 8, 152, 82, 56, 27, 176, 226, 49, 103, 123, 196, 199, 218, 233, 89, 197, 177,
    46, 83, 226, 9]

def dsSignature : Bytes :=
  [244, 88, 169, 79, 46, 86, 86, 235, 118, 156, 233, 0, 162, 154, 216, 243, 246, 64, 58, 176,
    90, 82, 150, 26, 70, 118, 55, 178, 29, 60, 83, 88, 255, 206, 120, 50, 7, 48, 57, 253, 208,
    92, 88, 81, 87, 238, 105, 153, 223, 132, 170, 120, 94, 222, 237, 20, 1, 148, 186, 192, 103,
    13, 239, 4]

/-- The bytes the root key signs over itself. -/
def rootKeySigned : Bytes :=
  [0, 48, 15, 0, 0, 0, 14, 16, 101, 236, 135, 128, 100, 187, 90, 128, 45, 10, 0, 0, 0, 48, 0, 1,
    0, 0, 14, 16, 0, 36, 1, 1, 3, 15] ++ sampleRootKey

def zoneKeySigned : Bytes :=
  [0, 48, 15, 1, 0, 0, 14, 16, 101, 236, 135, 128, 100, 187, 90, 128, 247, 209, 4, 116, 101,
    115, 116, 0, 4, 116, 101, 115, 116, 0, 0, 48, 0, 1, 0, 0, 14, 16, 0, 36, 1, 1, 3, 15] ++
      sampleZoneKey

def dsSigned : Bytes :=
  [0, 43, 15, 1, 0, 0, 14, 16, 101, 236, 135, 128, 100, 187, 90, 128, 45, 10, 0, 4, 116, 101,
    115, 116, 0, 0, 43, 0, 1, 0, 0, 14, 16, 0, 36, 247, 209, 15, 2] ++ sampleDigest

def sampleZone : Bytes := [116, 101, 115, 116]

/-- Ed25519 and SHA-256 on these keys and records. -/
def sampleCrypto : Crypto where
  rsaSha256 _ _ _ _ := false
  ecdsaP256Fixed _ _ _ := false
  ecdsaP256Der _ _ _ := false
  ecdsaP384Fixed _ _ _ := false
  ecdsaP384Der _ _ _ := false
  ed25519 publicKey data signature :=
    (publicKey, data, signature) ∈ [(sampleRootKey, rootKeySigned, rootKeySignature),
      (sampleZoneKey, zoneKeySigned, zoneKeySignature), (sampleRootKey, dsSigned, dsSignature)]
  sha256 input := if input = nameToWire sampleZone ++ dnskeyRdata 257 3 15 sampleZoneKey then
    sampleDigest else []
  sha384 _ := []

/-- A world in which no server can be reached and time stands still. -/
def World.unreachable (crypto : Crypto) (wall : UInt32) : World where
  crypto
  receive _ _ _ := .failed
  clock _ := 0
  wall _ := wall
  queryId _ := 0
  others _ := []
  toLowercase := List.map asciiLower

/-- The state before the first validation. -/
def ValidationSt.initial : ValidationSt := ⟨DnsCache.new, ⟨0, 0, 0, 0, 0⟩, 0⟩

/-- A record with its RDATA written out. -/
def sampleRecord (name : Bytes) (rtype : UInt16) (parsed : RData) : ResourceRecord where
  name
  rtype
  rclass := 1
  ttl := 3600
  rdlength := UInt16.ofNat (decompressedRdata parsed).length
  rdata := decompressedRdata parsed
  parsed := some parsed

def ed25519Record (name publicKey : Bytes) : ResourceRecord :=
  sampleRecord name 48 (.dnskey ⟨257, 3, 15, publicKey⟩)

def sampleSignature (name : Bytes) (typeCovered : UInt16) (labels : UInt8) (keyTag : UInt16)
    (signerName signature : Bytes) : ResourceRecord :=
  sampleRecord name 46
    (.rrsig ⟨typeCovered, 15, labels, 3600, 1710000000, 1690000000, keyTag, signerName, signature⟩)

def sampleZoneName : Bytes := [4, 116, 101, 115, 116, 0]

def sampleZoneRecords : List ResourceRecord :=
  [ed25519Record sampleZoneName sampleZoneKey,
    sampleSignature sampleZoneName 48 1 63441 sampleZoneName zoneKeySignature]

def sampleRootRecords : List ResourceRecord :=
  [ed25519Record [0] sampleRootKey, sampleSignature [0] 48 0 11530 [0] rootKeySignature]

def sampleDsRecords : List ResourceRecord :=
  [sampleRecord sampleZoneName 43 (.ds ⟨63441, 15, 2, sampleDigest⟩),
    sampleSignature sampleZoneName 43 1 11530 [0] dsSignature]

/-- The fetches: the root has keys, the zone has a DS record. -/
def sampleFetchDnskeys (zone : Bytes) : Validate (List ResourceRecord) :=
  pure (if zone = [46] then sampleRootRecords else [])

def sampleFetchDs (zone : Bytes) : Validate (List ResourceRecord) :=
  pure (if zone = sampleZone then sampleDsRecords else [])

theorem sampleRecords_parserBuilt :
    ∀ r ∈ sampleZoneRecords ++ sampleRootRecords ++ sampleDsRecords, ParserBuilt r := by
  simp only [sampleZoneRecords, sampleRootRecords, sampleDsRecords, List.cons_append,
    List.nil_append, List.forall_mem_cons]
  refine ⟨?_, ?_, ?_, ?_, ?_, ?_, fun r hr => absurd hr List.not_mem_nil⟩
  all_goals
    constructor
    all_goals simp [ed25519Record, sampleSignature, sampleRecord]

/-- The zone is secure under its own root, one link below the anchor. -/
theorem validateChain_sound_sampleZone :
    ∃ s' k, k + 0 ≤ 10 ∧ TrustChain (.unreachable sampleCrypto 1700000000) sampleFetchDs
      sampleFetchDnskeys [ed25519Record [0] sampleRootKey] k sampleZone sampleZoneRecords
      .initial s' := by
  have hrun : (validateChain sampleFetchDs sampleFetchDnskeys
      [ed25519Record [0] sampleRootKey] 0 sampleZone sampleZoneRecords).result
        (.unreachable sampleCrypto 1700000000) .initial = .ok .secure := by
    decide +kernel
  have hds : ∀ zone s records s', sampleFetchDs zone (.unreachable sampleCrypto 1700000000) s =
      .ok (records, s') → ∀ r ∈ records, ParserBuilt r := by
    intro zone s records s₁ heq r hr
    cases heq
    split at hr
    · exact sampleRecords_parserBuilt r (List.mem_append_right _ hr)
    · exact absurd hr List.not_mem_nil
  have hkeys : ∀ zone s records s', sampleFetchDnskeys zone
      (.unreachable sampleCrypto 1700000000) s = .ok (records, s') →
      ∀ r ∈ records, ParserBuilt r := by
    intro zone s records s₁ heq r hr
    cases heq
    split at hr
    · exact sampleRecords_parserBuilt r (List.mem_append_left _ (List.mem_append_right _ hr))
    · exact absurd hr List.not_mem_nil
  have hzone : ∀ r ∈ sampleZoneRecords, ParserBuilt r := fun r hr =>
    sampleRecords_parserBuilt r (List.mem_append_left _ (List.mem_append_left _ hr))
  obtain ⟨s', hs'⟩ := Run.result_eq_ok.mp hrun
  obtain ⟨_, k, hk, hchain⟩ := validateChain_sound _ _ _ _ _ _ _ _ _ hds hkeys hzone hs'
  exact ⟨s', k, hk, hchain⟩

end FastDns.Dnssec
