/-
Queries of the DNSSEC code and the chain of trust
(`src/resolver/recursive.rs`: `build_query_static` to `get_nameservers_for_zone`).

None of these functions calls the resolver again; they ask servers directly.
The walk up the chain is bounded by the source's own depth limit, which is the
recursion argument here.
-/

import FastDns.Resolver.Positive
import FastDns.Resolver.State

namespace FastDns.Resolver

open FastDns.Lib FastDns.Dns FastDns.Dnssec

/-! ### Queries -/

/-- The records of a type. -/
def ofType (rtype : UInt16) (records : List ResourceRecord) : List ResourceRecord :=
  records.filter fun r => r.rtype = rtype

/-- `build_query_static` -/
def buildQueryStatic (name : Bytes) (rtype rclass id : UInt16) (dnssecOk recursive : Bool) :
    DnsResult Bytes :=
  encodeMessage {
    header := Header.newQuery id recursive
    questions := [⟨name, rtype, rclass⟩]
    answers := []
    authorities := []
    additionals := [(OptRecord.new dnssecOk).toResourceRecord] }

/-- A query can be built as long as its name leaves room for the header, the rest
of the question and the OPT record. -/
theorem buildQueryStatic_of_length {name : Bytes} (h : name.length ≤ 8165)
    (rtype rclass id : UInt16) (dnssecOk recursive : Bool) :
    ∃ query, buildQueryStatic name rtype rclass id dnssecOk recursive = .ok query := by
  obtain ⟨header, hheader, hlen⟩ := Header.toBytes_of_room
    { Header.newQuery id recursive with qdcount := 1, ancount := 0, nscount := 0, arcount := 1 }
    (show 12 ≤ maxDnsMessageSize by decide)
  obtain ⟨question, hquestion, hqlen⟩ := Question.toBytes_of_room ⟨name, rtype, rclass⟩
    (show name.length + 4 ≤ maxDnsMessageSize - header.length by
      rw [hlen, maxDnsMessageSize]
      omega)
  have hwritten : (header ++ question).length = 12 + (name.length + 4) := by
    rw [List.length_append, hlen, hqlen]
  obtain ⟨opt, hopt⟩ := ResourceRecord.toBytes_of_room (OptRecord.new dnssecOk).toResourceRecord
    (show 11 ≤ maxDnsMessageSize - (header ++ question).length by
      rw [hwritten, maxDnsMessageSize]
      omega) rfl
  exact ⟨header ++ question ++ opt, Outcome.bind_eq_ok.mpr ⟨header, hheader,
    Outcome.bind_eq_ok.mpr ⟨header ++ question, writeItems_singleton hquestion,
      writeItems_singleton hopt⟩⟩⟩

/-- No query can be built for a longer name. -/
theorem length_le_of_buildQueryStatic {name query : Bytes} {rtype rclass id : UInt16}
    {dnssecOk recursive : Bool}
    (h : buildQueryStatic name rtype rclass id dnssecOk recursive = .ok query) :
    name.length ≤ 8165 := by
  obtain ⟨header, hheader, h⟩ := Outcome.bind_eq_ok.mp h
  obtain ⟨written, hquestions, h⟩ := Outcome.bind_eq_ok.mp h
  obtain ⟨bytes, hquestion, hwritten⟩ := Outcome.bind_eq_ok.mp hquestions
  cases hwritten
  obtain ⟨_, hanswers, h⟩ := Outcome.bind_eq_ok.mp h
  cases hanswers
  obtain ⟨_, hauthorities, h⟩ := Outcome.bind_eq_ok.mp h
  cases hauthorities
  obtain ⟨opt, hopt, _⟩ := Outcome.bind_eq_ok.mp h
  have hlen : header.length = 12 := by
    unfold Header.toBytes at hheader
    split at hheader
    · cases hheader
    · cases hheader
      rfl
  have hqlen : bytes.length = name.length + 4 := by
    unfold Question.toBytes at hquestion
    dsimp only at hquestion
    split at hquestion
    · cases hquestion
    · cases hquestion
      simp [u16ToBeBytes]
  have hroom : 11 ≤ maxDnsMessageSize - (header ++ bytes).length := by
    unfold ResourceRecord.toBytes at hopt
    dsimp only at hopt
    split at hopt
    · cases hopt
    · rename_i hroom
      exact Nat.not_lt.mp hroom
  rw [List.length_append, hlen, hqlen, maxDnsMessageSize] at hroom
  omega

/-- `f().ok()?` in a function that returns an `Option`. -/
def callOk {α β : Type} (x : DnsResult α) (k : α → Resolve (Option β)) : Resolve (Option β) := do
  match ← attempt (call x) with
  | .ok a => k a
  | .error _ => pure none

/-- `query_rd1` -/
def queryRd1 (name : Bytes) (rtype rclass : UInt16) (servers : List IpAddr) :
    Resolve (Option Message) := do
  if servers.isEmpty then pure none
  else
    let id ← randomId
    callOk (buildQueryStatic name rtype rclass id true true) fun query =>
      queryServersConcurrent query servers

/-- `resolve_dnssec`: from the cache only. -/
def resolveDnssec (name : Bytes) (rtype rclass : UInt16) : Resolve (List ResourceRecord) := do
  match ← attempt (call (encodeDomainName name)) with
  | .ok encoded => do
      let found ← cacheLookup (encoded, rtype, rclass)
      pure ((found.map Prod.fst).getD [])
  | .error _ => pure []

/-- The glue for a nameserver: its address records of either family. -/
def glueFor (nsName : Bytes) (additionals : List ResourceRecord) : List IpAddr :=
  (additionals.filter fun r =>
    domainNamesEqual r.name nsName && (r.rtype = 1 || r.rtype = 28)).filterMap (recordAddr true)

/-- The loop of `get_nameservers_for_zone` over the NS records. Cached addresses
are used only while no address has been found at all. -/
def collectNameservers (additionals : List ResourceRecord) :
    List ResourceRecord → List IpAddr → Resolve (List IpAddr)
  | [], ips => pure ips
  | ns :: rest, ips =>
      match ns.parsed with
      | some (.ns nsName) => do
          let ips := ips ++ glueFor nsName additionals
          if ips.isEmpty then do
            let cached ← nsLookup nsName
            collectNameservers additionals rest (ips ++ cached.getD [])
          else collectNameservers additionals rest ips
      | _ => collectNameservers additionals rest ips

/-- `get_nameservers_for_zone` -/
def getNameserversForZone (zone : Bytes) : Resolve (List IpAddr) := do
  match ← lookupDelegation zone with
  | some (servers, _) => pure servers
  | none => do
      match ← nsLookup zone with
      | some ips => pure ips
      | none => do
          if isRootZone zone then pure initialRootAddrs
          else
            let id ← randomId
            match ← attempt (call (buildQueryStatic zone 2 1 id false false)) with
            | .error _ => pure []
            | .ok query => do
                match ← queryServersConcurrent query initialRootAddrs with
                | none => pure []
                | some msg =>
                    collectNameservers msg.additionals (ofType 2 msg.authorities) []

/-- A query of the chain walk: DO set, asked of the servers of `zone`. -/
def queryZone {β : Type} (name : Bytes) (rtype : UInt16) (zone : Bytes)
    (k : Message → Option β) : Resolve (Option β) := do
  let id ← randomId
  callOk (buildQueryStatic name rtype 1 id true false) fun query => do
    let nameservers ← getNameserversForZone zone
    if nameservers.isEmpty then pure none
    else
      let reply ← queryServersConcurrent query nameservers
      pure (reply.bind k)

/-- `query_ds_records`: DS records, signatures and DNSKEYs of the parent. -/
def queryDsRecords (childName parent : Bytes) :
    Resolve (Option (List ResourceRecord × List ResourceRecord × List ResourceRecord)) :=
  queryZone childName 43 parent fun msg =>
    let dsRecords := ofType 43 msg.answers
    if dsRecords.isEmpty then none
    else some (dsRecords, ofType 46 (msg.answers ++ msg.authorities),
      ofType 48 (msg.authorities ++ msg.additionals))

/-- The signer named by the first signature, if it is parsed. -/
def signerOr (zone : Bytes) (rrsigs : List ResourceRecord) : Bytes :=
  match rrsigs with
  | r :: _ => match r.parsed with
      | some (.rrsig s) => s.signerName
      | _ => zone
  | [] => zone

/-- `query_dnskey_records`: DNSKEY records, signatures and the signer. -/
def queryDnskeyRecords (zone : Bytes) :
    Resolve (Option (List ResourceRecord × List ResourceRecord × Bytes)) :=
  queryZone zone 48 zone fun msg =>
    let dnskeys := ofType 48 msg.answers
    let rrsigs := ofType 46 (msg.answers ++ msg.authorities)
    if dnskeys.isEmpty then none else some (dnskeys, rrsigs, signerOr zone rrsigs)

/-! ### The chain of trust -/

/-- `{:?}` of a verdict. -/
def debugVerdict : ValidationResult → String
  | .secure => "Secure"
  | .insecure => "Insecure"
  | .bogus reason => "Bogus(\"" ++ reason ++ "\")"
  | .indeterminate => "Indeterminate"

/-- The number of levels the walk may take: the source refuses a depth above 10. -/
def chainLevels : Nat := 11

/-- `validate_dnssec_chain`, at depth `chainLevels - remaining`. -/
def validateDnssecChain :
    Nat → Bytes → List ResourceRecord → List ResourceRecord → Bytes → Resolve ValidationResult
  | 0, _, _, _, _ => pure (.bogus "Chain-of-trust depth exceeded")
  | remaining + 1, zoneName, dnskeys, rrsigs, signerName => do
      if rrsigs.all fun r => rrsigTypeCovered r ≠ some 48 then
        pure (.bogus "No DNSKEY RRSIG found for chain validation")
      else if isRootZone zoneName || isRootZone signerName then
        if validateDnskeysAgainstRootAnchor dnskeys then pure .secure
        else pure (.bogus "Root DNSKEY does not match trust anchor")
      else
        let parent := (parentZone zoneName).getD [0]
        let zoneStr := textOf (labelsToString zoneName)
        match ← queryDsRecords zoneName parent with
        | none => pure .insecure
        | some (dsRecords, dsRrsigs, parentDnskeys) => do
            let env ← Run.read
            if !validateDnskeysAgainstDs env.crypto dnskeys dsRecords then
              pure (.bogus ("No DNSKEY for " ++ zoneStr ++ " matches parent DS records"))
            else
              let now ← readWall
              match firstFailure (dsRrsigs.map fun r =>
                  validateRrset env.crypto now r dsRecords parentDnskeys) with
              | some other =>
                  pure (.bogus ("DS RRSIG validation failed for " ++ zoneStr ++ ": " ++
                    debugVerdict other))
              | none => do
                  match ← queryDnskeyRecords parent with
                  | none =>
                      if isRootZone parent && validateDnskeysAgainstRootAnchor parentDnskeys then
                        pure .secure
                      else pure .indeterminate
                  | some (parentKeys, parentRrsigs, _) =>
                      validateDnssecChain remaining parent parentKeys parentRrsigs
                        (signerOr parent parentRrsigs)

end FastDns.Resolver
