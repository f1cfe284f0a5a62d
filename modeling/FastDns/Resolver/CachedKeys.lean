/-
Signatures checked with keys from the cache.

`validate_rrset` reads the parsed form of a key and nothing else of it.
`insert` stores no parsed form, so no key that comes out of a cache can verify
anything (`parsed_served`): a signature that verifies with the keys of
a message is bogus with the same keys from the cache, and every other signature
gets the same verdict both ways.
-/

import FastDns.Dns.Message
import FastDns.Resolver.History
import FastDns.Resolver.Positive

namespace FastDns.Resolver

open FastDns.Lib FastDns.Dns FastDns.Dnssec

/-! ### What a lookup hands out -/

namespace DnsCache

/-- The records of a lookup, none on a miss. -/
def served (c : DnsCache) (t : Nat) (k : CacheKey) : List ResourceRecord :=
  ((c.lookup t k).1.map Prod.fst).getD []

/-- No record of a cache has a parsed form. -/
theorem parsed_served (max : Option Nat) (hist : History) (t : Nat) (k : CacheKey) :
    ∀ r ∈ ((create max).runOps hist).served t k, r.parsed = none := by
  intro r hr
  unfold served at hr
  cases hlookup : (((create max).runOps hist).lookup t k).1 with
  | none =>
      rw [hlookup] at hr
      cases hr
  | some answer =>
      obtain ⟨records, least⟩ := answer
      rw [hlookup] at hr
      obtain ⟨vec, hvec, fresh, rfl, _, rfl, _⟩ := lookup_eq_some hlookup
      obtain ⟨e, he, rfl⟩ := List.mem_map.mp hr
      obtain ⟨s, ttl, rdata, rdlength, _, _, rfl⟩ :=
        recordsOf_inserted (recordsOf_create max) hist hvec (List.mem_of_mem_filter he)
      rfl

end DnsCache

/-! ### The verdict with cached keys -/

section Verdict

variable {crypto : Crypto} {now : UInt32} {rrsig : ResourceRecord}
  {records : List ResourceRecord}

/-- A key without a parsed form verifies nothing. -/
theorem any_keyVerifies_unparsed {s : Rrsig} {signedData : Bytes} {keys : List ResourceRecord}
    (h : ∀ dk ∈ keys, dk.parsed = none) : keys.any (keyVerifies crypto s signedData) = false := by
  rw [List.any_eq_false]
  intro dk hdk
  simp [keyVerifies, h dk hdk]

/-- Two lists of keys give one verdict exactly when the signature is not
checked, or both lists verify it or neither does. -/
theorem validateRrset_eq_iff {keys keys' : List ResourceRecord} :
    validateRrset crypto now rrsig records keys' = validateRrset crypto now rrsig records keys ↔
      ∀ s, rrsig.parsed = some (.rrsig s) →
        isRrsigTimeValid now s.signatureExpiration s.signatureInception = true →
        keys'.any (keyVerifies crypto s (buildSignedData rrsig records)) =
          keys.any (keyVerifies crypto s (buildSignedData rrsig records)) := by
  unfold validateRrset
  split
  · rename_i s hs
    cases htime : isRrsigTimeValid now s.signatureExpiration s.signatureInception with
    | false => simp [hs, htime]
    | true =>
        simp only [hs, Option.some.injEq, RData.rrsig.injEq, Bool.not_true, Bool.false_eq_true,
          if_false, forall_eq', htime, forall_const]
        cases keys'.any (keyVerifies crypto s (buildSignedData rrsig records)) <;>
          cases keys.any (keyVerifies crypto s (buildSignedData rrsig records)) <;> simp
  · rename_i hno
    simp only [true_iff]
    intro s hs
    exact absurd hs (hno s)

end Verdict

/-- **Keys that went through the cache give the verdict of the keys themselves
exactly when the signature is not parsed, is outside its time window, or is
verified by none of the keys.** -/
theorem validateRrset_served_iff (crypto : Crypto) (now : UInt32) (rrsig : ResourceRecord)
    (records dnskeys : List ResourceRecord) (max : Option Nat) (calls : Calls) (s t : Nat)
    (k : CacheKey) :
    validateRrset crypto now rrsig records
        ((((DnsCache.create max).runCalls calls).insertRecords s dnskeys).served t k) =
      validateRrset crypto now rrsig records dnskeys ↔
    ∀ sig, rrsig.parsed = some (.rrsig sig) →
      isRrsigTimeValid now sig.signatureExpiration sig.signatureInception = true →
      ∀ dk ∈ dnskeys, keyVerifies crypto sig (buildSignedData rrsig records) dk = false := by
  have hcalls : ((DnsCache.create max).runCalls calls).insertRecords s dnskeys =
      (DnsCache.create max).runOps
        (calls.history ++ dnskeys.map fun r => (s, CacheOp.insertRecord r)) := by
    rw [DnsCache.runCalls_eq_runOps, DnsCache.insertRecords_eq_runOps, DnsCache.runOps_append]
  have hunparsed := DnsCache.parsed_served max
    (calls.history ++ dnskeys.map fun r => (s, CacheOp.insertRecord r)) t k
  rw [hcalls, validateRrset_eq_iff]
  refine forall_congr' fun sig => forall_congr' fun _ => forall_congr' fun _ => ?_
  rw [any_keyVerifies_unparsed hunparsed, eq_comm, List.any_eq_false]
  simp

/-! ### A signed message -/

/-- A response with the A record of `a.test`, its signature by `test`, and the
Ed25519 key of `test`. -/
def signedMessage : Bytes :=
  [0, 0, 132, 0, 0, 0, 0, 3, 0, 0, 0, 0, 1, 97, 4, 116, 101, 115, 116, 0, 0, 1, 0, 1, 0, 0, 0,
    60, 0, 4, 192, 0, 2, 1, 1, 97, 4, 116, 101, 115, 116, 0, 0, 46, 0, 1, 0, 0, 0, 60, 0, 88, 0,
    1, 15, 2, 0, 0, 0, 60, 101, 236, 135, 128, 100, 187, 90, 128, 133, 211, 4, 116, 101, 115,
    116, 0, 100, 243, 13, 48, 211, 218, 152, 225, 57, 110, 166, 248, 120, 113, 246, 92, 204,
    216, 11, 96, 32, 165, 140, 152, 199, 80, 169, 106, 43, 131, 39, 228, 63, 4, 161, 16, 170,
    103, 23, 115, 246, 113, 190, 254, 255, 169, 179, 169, 38, 142, 38, 246, 53, 43, 148, 85, 69,
    168, 168, 165, 182, 64, 226, 10, 4, 116, 101, 115, 116, 0, 0, 48, 0, 1, 0, 0, 0, 60, 0, 36,
    1, 1, 3, 15, 3, 161, 7, 191, 243, 206, 16, 190, 29, 112, 221, 24, 231, 75, 192, 153, 103,
    228, 214, 48, 155, 165, 13, 95, 29, 220, 134, 100, 18, 85, 49, 184]

/-- The public key of the message. -/
def signedMessageKey : Bytes :=
  [3, 161, 7, 191, 243, 206, 16, 190, 29, 112, 221, 24, 231, 75, 192, 153, 103, 228, 214, 48,
    155, 165, 13, 95, 29, 220, 134, 100, 18, 85, 49, 184]

/-- What the signature of the message is over. -/
def signedMessageData : Bytes :=
  [0, 1, 15, 2, 0, 0, 0, 60, 101, 236, 135, 128, 100, 187, 90, 128, 133, 211, 4, 116, 101, 115,
    116, 0, 1, 97, 4, 116, 101, 115, 116, 0, 0, 1, 0, 1, 0, 0, 0, 60, 0, 4, 192, 0, 2, 1]

/-- The signature of the message. -/
def signedMessageSignature : Bytes :=
  [100, 243, 13, 48, 211, 218, 152, 225, 57, 110, 166, 248, 120, 113, 246, 92, 204, 216, 11, 96,
    32, 165, 140, 152, 199, 80, 169, 106, 43, 131, 39, 228, 63, 4, 161, 16, 170, 103, 23, 115,
    246, 113, 190, 254, 255, 169, 179, 169, 38, 142, 38, 246, 53, 43, 148, 85, 69, 168, 168,
    165, 182, 64, 226, 10]

/-- Ed25519 on the one signature of the message. -/
def signedMessageCrypto : Crypto :=
  { Crypto.rejectAll with
    ed25519 := fun publicKey data signature => publicKey = signedMessageKey &&
      data = signedMessageData && signature = signedMessageSignature }

def signedRrsig : ResourceRecord where
  name := [1, 97, 4, 116, 101, 115, 116, 0]
  rtype := 46
  rclass := 1
  ttl := 60
  rdlength := 88
  rdata := (signedMessageData.take 24) ++ signedMessageSignature
  parsed := some (.rrsig {
    typeCovered := 1
    algorithm := 15
    labels := 2
    originalTtl := 60
    signatureExpiration := 1710000000
    signatureInception := 1690000000
    keyTag := 34259
    signerName := [4, 116, 101, 115, 116, 0]
    signature := signedMessageSignature })

def signedKey : ResourceRecord where
  name := [4, 116, 101, 115, 116, 0]
  rtype := 48
  rclass := 1
  ttl := 60
  rdlength := 36
  rdata := [1, 1, 3, 15] ++ signedMessageKey
  parsed := some (.dnskey ⟨257, 3, 15, signedMessageKey⟩)

/-- The signature verifies with the key of the message, and is bogus with the
same key from the cache. -/
theorem signedKey_lost_in_cache :
    ((decodeMessage signedMessage).toOption.map fun m => m.answers) =
        some [sampleAnswer, signedRrsig, signedKey] ∧
      validateRrset signedMessageCrypto 1700000000 signedRrsig [sampleAnswer] [signedKey] =
        .secure ∧
      (((DnsCache.create none).runCalls []).insertRecords 0 [signedKey]).served 0
        (signedKey.name, 48, 1) = [{ signedKey with parsed := none }] ∧
      validateRrset signedMessageCrypto 1700000000 signedRrsig [sampleAnswer]
        ((((DnsCache.create none).runCalls []).insertRecords 0 [signedKey]).served 0
          (signedKey.name, 48, 1)) = .bogus "No matching DNSKEY found for RRSIG" := by
  refine ⟨?_, ?_, ?_, ?_⟩
  · decide +kernel
  · decide +kernel
  · decide +kernel
  · decide +kernel

end FastDns.Resolver
