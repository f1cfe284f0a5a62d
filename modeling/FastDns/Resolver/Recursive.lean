/-
The recursive resolver (`src/resolver/recursive.rs`: `resolve_with_ad`,
`resolve_recursive` and what they call).

`resolve_recursive` calls itself for aliases and for the names of nameservers,
and through `resolve` for DNSKEY records. Every such call goes through the
parameter `self`; `resolveRecursive` ties the knot with a bound on the nesting
of calls, and a run that exceeds every bound is one whose call tree is infinite.

A call returns a `Resolution`: the records and the flag of the source, with the
branch that produced them and what that branch rested on. The source returns
only `Resolution.records` and `Resolution.ad`.
-/

import FastDns.Resolver.Chain

namespace FastDns.Resolver

open FastDns.Lib FastDns.Dns FastDns.Dnssec

/-! ### Results -/

/-- What an RRset was validated with: signatures, keys, the clock, and the
verdict on the chain of trust if it was walked. -/
structure Evidence where
  rrsigs : List ResourceRecord
  dnskeys : List ResourceRecord
  wall : UInt32
  chain : Option ValidationResult
deriving DecidableEq, Repr

/-- How `resolve_recursive` came to its result. -/
inductive Resolution where
  /-- Records of the name and type asked for. -/
  | direct (records : List ResourceRecord) (ad : Bool) (evidence : Option Evidence)
  /-- A CNAME record and the resolution of its target. -/
  | alias (cname : ResourceRecord) (evidence : Option Evidence) (target : Resolution) (ad : Bool)
  /-- No data, in answer to a query for `qname` with so many labels revealed, and
  the verdict on the denial if there was one. -/
  | nodata (ad : Bool) (denial : Option ValidationResult) (qname : Bytes) (revealed : Nat)
deriving DecidableEq, Repr

namespace Resolution

def records : Resolution → List ResourceRecord
  | .direct records _ _ => records
  | .alias cname _ target _ => cname :: target.records
  | .nodata _ _ _ _ => []

def ad : Resolution → Bool
  | .direct _ ad _ => ad
  | .alias _ _ _ ad => ad
  | .nodata ad _ _ _ => ad

end Resolution

/-- The type of `resolve_recursive`: name, type, class, depth, minimisation. -/
abbrev Recursive := Config → Bytes → UInt16 → UInt16 → Nat → Bool → Resolve Resolution

section Calls

variable (self : Recursive) (cfg : Config)

/-! ### Entry points -/

/-- `resolve_recursive_stale` -/
def resolveRecursiveStale (name : Bytes) (rtype rclass : UInt16) : Resolve Resolution :=
  withDeadline (self cfg name rtype rclass 0 true)

/-- `resolve_with_ad`, once the name is encoded. -/
def resolveEncoded (encodedName : Bytes) (rtype rclass : UInt16) :
    Resolve (List ResourceRecord × Bool) := do
  match ← cacheLookup (encodedName, rtype, rclass) with
  | some (records, ttl) => do
      -- Background refresh of an entry close to its expiry.
      if ttl < 120 then spawn (self cfg encodedName rtype rclass 0 true)
      pure (records, false)
  | none => do
      match ← cacheLookupStale (encodedName, rtype, rclass) with
      | some stale => do
          match ← attempt (resolveRecursiveStale self cfg encodedName rtype rclass) with
          | .ok fresh => do
              cacheInsertRecords fresh.records
              pure (fresh.records, false)
          | .error _ => pure (stale, false)
      | none => do
          let result ← self cfg encodedName rtype rclass 0 true
          cacheInsertRecords result.records
          pure (result.records, result.ad)

/-- `resolve_with_ad` -/
def resolveWithAd (name : Bytes) (rtype rclass : UInt16) :
    Resolve (List ResourceRecord × Bool) := do
  let encodedName ← call (encodeDomainName name)
  resolveEncoded self cfg encodedName rtype rclass

/-- `resolve` -/
def resolve (name : Bytes) (rtype rclass : UInt16) : Resolve (List ResourceRecord) := do
  let (records, _) ← resolveWithAd self cfg name rtype rclass
  pure records

/-! ### Negative answers -/

/-- The result of `validate_negative_dnssec_response`, with the verdict it rests on. -/
structure Negative where
  ad : Bool
  soaRecords : List ResourceRecord
  verdict : Option ValidationResult

/-- `validate_negative_dnssec_response` -/
def validateNegativeDnssecResponse (msg : Message) (name : Bytes) (rclass : UInt16) :
    Resolve Negative := do
  let soaRecords := ofType 6 msg.authorities
  if !cfg.dnssecOk || (ofType 46 msg.authorities).isEmpty then pure ⟨false, soaRecords, none⟩
  else
    let zoneName := (soaRecords.head?.map fun r => r.name).getD name
    match ← attempt (resolve self cfg (labelsToString zoneName) 48 rclass) with
    | .error _ => pure ⟨false, soaRecords, none⟩
    | .ok dnskeys =>
        if dnskeys.isEmpty then pure ⟨false, soaRecords, none⟩
        else
          let verdict := validateNegativeDnssec (ofType 47 msg.authorities)
            (ofType 50 msg.authorities)
          pure ⟨verdict = .secure, soaRecords, some verdict⟩

/-! ### Direct answers -/

/-- The first list, or the second in its place if it is empty. -/
def orElseRecords (first second : List ResourceRecord) : List ResourceRecord :=
  if first.isEmpty then second else first

/-- Signatures and keys of a response, completed by a query with RD=1 when
either is missing. -/
def responseMaterial (name : Bytes) (rtype rclass : UInt16) (nameservers : List IpAddr)
    (msg : Message) : Resolve (List ResourceRecord × List ResourceRecord) := do
  let rrsigs := ofType 46 (msg.answers ++ msg.authorities)
  let dnskeys := ofType 48 (msg.answers ++ msg.authorities)
  if (rrsigs.isEmpty || dnskeys.isEmpty) && !nameservers.isEmpty then
    match ← queryRd1 name rtype rclass nameservers with
    | none => pure (rrsigs, dnskeys)
    | some rd1 =>
        pure (orElseRecords rrsigs (ofType 46 (rd1.answers ++ rd1.authorities)),
          orElseRecords dnskeys (ofType 48 (rd1.answers ++ rd1.authorities)))
  else pure (rrsigs, dnskeys)

/-- Add the cached DNSKEY signatures that are not in the list yet. -/
def mergeRrsigs (rrsigs : List ResourceRecord) : List ResourceRecord → List ResourceRecord
  | [] => rrsigs
  | rr :: rest =>
      if rrsigTypeCovered rr = some 48 ∧
          ¬ rrsigs.any (fun r => r.rtype = 46 && r.name = rr.name && r.rdata = rr.rdata) then
        mergeRrsigs (rrsigs ++ [rr]) rest
      else mergeRrsigs rrsigs rest

/-- The signer named by the first signature with parsed RDATA. -/
def firstSigner (rrsigs : List ResourceRecord) : Option Bytes :=
  rrsigs.findSome? fun r => match r.parsed with
    | some (.rrsig s) => some s.signerName
    | _ => none

/-- All signatures and keys for a direct answer. Keys that are still missing are
resolved as a question of its own. -/
def answerMaterial (name : Bytes) (rtype rclass : UInt16) (nameservers : List IpAddr)
    (msg : Message) : Resolve (List ResourceRecord × List ResourceRecord) := do
  let (rrsigs, dnskeys) ← responseMaterial name rtype rclass nameservers msg
  if !rrsigs.isEmpty && dnskeys.isEmpty then
    let zoneStr := labelsToString ((firstSigner rrsigs).getD name)
    match ← attempt (resolve self cfg zoneStr 48 rclass) with
    | .error _ => pure (rrsigs, dnskeys)
    | .ok records =>
        if records.isEmpty then pure (rrsigs, dnskeys)
        else do
          let cached ← resolveDnssec zoneStr 46 rclass
          pure (mergeRrsigs rrsigs cached, records)
  else pure (rrsigs, dnskeys)

/-- The search for DS records of the zones above a name whose answer is unsigned. -/
def checkMissingSignature (name : Bytes) (rclass : UInt16) : Nat → Resolve Unit
  | 0 => pure ()
  | 1 => pure ()
  | n + 2 => do
      let zoneBytes ← call (namePrefix name (n + 2))
      let dsRecords ← resolveDnssec (labelsToString zoneBytes) 43 rclass
      if !dsRecords.isEmpty then fail (.malformed "DNSSEC: signed zone returned unsigned answer")
      else checkMissingSignature name rclass (n + 1)

/-- What the verdict on a direct answer means for the flag: it is raised, left as
it is, or the answer is rejected. -/
def applyVerdict (name : Bytes) (rclass : UInt16) (totalLabels : Nat) (adBit : Bool)
    (rrsigs dnskeys : List ResourceRecord) : ValidationResult → Resolve Bool
  | .secure => pure true
  | .bogus _ => fail (.malformed "DNSSEC validation failed: signature invalid or expired")
  | .insecure => pure adBit
  | .indeterminate => do
      if !dnskeys.isEmpty && rrsigs.isEmpty then
        fail (.malformed "DNSSEC: DNSKEYs without RRSIGs for signed zone")
      else if rrsigs.isEmpty && totalLabels ≥ 2 then
        checkMissingSignature name rclass (totalLabels - 1)
        pure adBit
      else pure adBit

/-- The loop of `rrsig_signer_name` over unparsed RDATA. -/
def rawSignerLoop : Nat → Bytes → Bytes → Bytes
  | 0, _, name => name
  | _ + 1, [], name => name
  | fuel + 1, len :: rest, name =>
      if len = 0 then name ++ [0]
      else if rest.length < len.toNat then name
      else rawSignerLoop fuel (rest.drop len.toNat) (name ++ len :: rest.take len.toNat)

/-- `rrsig_signer_name` -/
def rrsigSignerName (r : ResourceRecord) : Option Bytes :=
  match r.parsed with
  | some (.rrsig s) => some s.signerName
  | _ =>
      if r.rtype = 46 ∧ r.rdata.length > 18 then
        let name := rawSignerLoop r.rdata.length (r.rdata.drop 18) []
        if name.isEmpty then none else some name
      else none

/-- The walk up the chain of trust, if there are keys and a signature over them.
Its verdict is only reported. -/
def walkChain (rrsigs dnskeys : List ResourceRecord) : Resolve (Option ValidationResult) :=
  match dnskeys, rrsigs.filter fun r => rrsigTypeCovered r = some 48 with
  | key :: _, rrsig :: _ => do
      let verdict ← validateDnssecChain chainLevels key.name dnskeys rrsigs
        ((rrsigSignerName rrsig).getD key.name)
      pure (some verdict)
  | _, _ => pure none

/-! ### One iteration -/

/-- The variables of the loop. `zone` is the zone the nameservers serve: the
root, the owner of the followed NS records, or the cached suffix. -/
structure Search where
  nameservers : List IpAddr
  zone : Bytes
  revealedLabels : Nat
  adBit : Bool

/-- `if nameservers.len() > 1 { nameservers.rotate_left(1) }` -/
def Search.rotate (s : Search) : Search :=
  if s.nameservers.length > 1 then { s with nameservers := s.nameservers.rotateLeft 1 } else s

/-- Types whose records are validation material themselves. -/
def isDnssecMeta (rtype : UInt16) : Bool := rtype = 46 || rtype = 48 || rtype = 43

/-- The branch for direct answers. -/
def directAnswer (name : Bytes) (rtype rclass : UInt16) (totalLabels : Nat) (s : Search)
    (msg : Message) (direct : List ResourceRecord) : Resolve Resolution := do
  if cfg.dnssecOk && !isDnssecMeta rtype then
    let (rrsigs, dnskeys) ← answerMaterial self cfg name rtype rclass s.nameservers msg
    let env ← Run.read
    let wall ← readWall
    let ad ← applyVerdict name rclass totalLabels s.adBit rrsigs dnskeys
      (validateDnssec env.crypto wall cfg.dnssecOk direct rrsigs dnskeys)
    let chain ← walkChain rrsigs dnskeys
    cacheDelegation s.zone name msg name s.nameservers
    pure (.direct direct ad (some ⟨rrsigs, dnskeys, wall, chain⟩))
  else do
    cacheDelegation s.zone name msg name s.nameservers
    pure (.direct direct s.adBit none)

/-- The target of a CNAME record: parsed, or its raw RDATA. -/
def aliasTarget (cname : ResourceRecord) : Option Bytes :=
  match cname.parsed with
  | some (.cname target) => some target
  | _ => if cname.rdata.isEmpty then none else some cname.rdata

/-- The alias a reply gives for a name: its first CNAME record and the target. -/
def aliasOf (name : Bytes) (msg : Message) : Option (ResourceRecord × Bytes) :=
  match msg.answers.filter fun r => domainNamesEqual r.name name && r.rtype = 5 with
  | cname :: _ => (aliasTarget cname).map fun target => (cname, target)
  | [] => none

/-- The name of a nameserver in an NS record. -/
def nsTarget (ns : ResourceRecord) : Bytes :=
  match ns.parsed with
  | some (.ns name) => name
  | _ => ns.rdata

/-- The loop over the NS records of a referral: addresses from glue or from the
cache, and the names that have to be resolved. -/
def referralServers (additionals : List ResourceRecord) :
    List ResourceRecord → List IpAddr → List Bytes → Resolve (List IpAddr × List Bytes)
  | [], servers, toResolve => pure (servers, toResolve)
  | ns :: rest, servers, toResolve => do
      let glue := additionals.filter fun r => domainNamesEqual r.name (nsTarget ns) &&
        (r.rtype = 1 || (cfg.enableIpv6 && r.rtype = 28))
      if !glue.isEmpty then
        referralServers additionals rest (servers ++ glue.filterMap (recordAddr cfg.enableIpv6))
          toResolve
      else
        match ← nsLookup (nsTarget ns) with
        | some cached => referralServers additionals rest (servers ++ cached) toResolve
        | none => referralServers additionals rest servers (toResolve ++ [nsTarget ns])

/-- The addresses of A records. -/
def ipv4Addrs (records : List ResourceRecord) : List IpAddr :=
  records.filterMap fun r => match r.parsed with
    | some (.a ip) => some (.v4 ip)
    | _ => none

/-- `resolve_ns_names_concurrently`, one name after the other. -/
def resolveNsNamesConcurrently (rclass : UInt16) (depth : Nat) :
    List Bytes → Resolve (List (Bytes × List IpAddr))
  | [] => pure []
  | name :: rest => do
      if domainNamesEqual name [0] then resolveNsNamesConcurrently rclass depth rest
      else
        let ips ← attempt (self { cfg with dnssecOk := false } name 1 rclass (depth + 1) false)
        let ips := match ips with
          | .ok result => ipv4Addrs result.records
          | .error _ => []
        let others ← resolveNsNamesConcurrently rclass depth rest
        pure ((name, ips) :: others)

/-- The resolved addresses of nameservers, each put into the cache. -/
def storeNsAddrs : List (Bytes × List IpAddr) → List IpAddr → Resolve (List IpAddr)
  | [], servers => pure servers
  | (name, ips) :: rest, servers => do
      if ips.isEmpty then storeNsAddrs rest servers
      else
        act (.nsPut name ips)
        storeNsAddrs rest (servers ++ ips)

/-- The branch for a reply without answer, alias or usable referral: no data, or
another round. -/
def negativeAnswer (name : Bytes) (rclass : UInt16) (totalLabels : Nat) (s : Search)
    (minimizedName : Bytes) (msg : Message) : Resolve (Search ⊕ Resolution) := do
  if !(ofType 6 msg.authorities).isEmpty then
    let negative ← validateNegativeDnssecResponse self cfg msg name rclass
    pure (.inr (.nodata (s.adBit || negative.ad) negative.verdict minimizedName s.revealedLabels))
  else
    let revealedLabels :=
      if s.revealedLabels < totalLabels ∧ (ofType 2 msg.authorities).isEmpty then totalLabels
      else s.revealedLabels
    pure (.inl { s with revealedLabels }.rotate)

/-- The branch for NS records in the authority section. -/
def referral (name : Bytes) (rclass : UInt16) (depth totalLabels : Nat) (s : Search)
    (minimizedName : Bytes) (msg : Message) : Resolve (Search ⊕ Resolution) :=
  match ofType 2 msg.authorities with
  | [] => negativeAnswer self cfg name rclass totalLabels s minimizedName msg
  | first :: others => do
      let (known, toResolve) ← referralServers cfg msg.additionals (first :: others) [] []
      let resolved ← resolveNsNamesConcurrently self cfg rclass depth toResolve
      let newServers ← storeNsAddrs resolved known
      if newServers.isEmpty then
        negativeAnswer self cfg name rclass totalLabels s minimizedName msg
      else
        cacheDelegation s.zone name msg first.name newServers
        pure (.inl { s with
          nameservers := newServers
          zone := first.name
          revealedLabels :=
            if s.revealedLabels < totalLabels then s.revealedLabels + 1 else s.revealedLabels })

/-- The records of a reply that answer the question directly. -/
def directRecords (name : Bytes) (rtype : UInt16) (msg : Message) : List ResourceRecord :=
  msg.answers.filter fun r => domainNamesEqual r.name name && r.rtype = rtype

/-- The classification of a reply with RCODE 0. -/
def classifyReply (name : Bytes) (rtype rclass : UInt16) (depth totalLabels : Nat) (s : Search)
    (minimizedName : Bytes) (msg : Message) : Resolve (Search ⊕ Resolution) := do
  if !(directRecords name rtype msg).isEmpty then
    let answer ← directAnswer self cfg name rtype rclass totalLabels s msg
      (directRecords name rtype msg)
    pure (.inr answer)
  else
    match aliasOf name msg with
    | some (cname, target) => do
        let sub ← self cfg target rtype rclass (depth + 1) true
        cacheDelegation s.zone name msg name s.nameservers
        -- The CNAME itself is accepted without a call of the validator.
        pure (.inr (.alias cname none sub (s.adBit || sub.ad)))
    | none => referral self cfg name rclass depth totalLabels s minimizedName msg

/-- A reply, once it is cached. -/
def handleReply (name : Bytes) (rtype rclass : UInt16) (depth totalLabels : Nat) (s : Search)
    (minimizedName : Bytes) (msg : Message) : Resolve (Search ⊕ Resolution) := do
  if msg.header.rcode = 3 then
    let negative ← validateNegativeDnssecResponse self cfg msg name rclass
    fail (.nxDomain negative.soaRecords negative.ad)
  else if msg.header.rcode ≠ 0 then
    pure (.inl (if s.revealedLabels ≥ totalLabels then s.rotate else s))
  else classifyReply self cfg name rtype rclass depth totalLabels s minimizedName msg

/-- The name of the next query: the rightmost labels while not all are revealed. -/
def minimizeName (name : Bytes) (totalLabels : Nat) (s : Search) : DnsResult Bytes :=
  if s.revealedLabels < totalLabels then namePrefix name s.revealedLabels else .ok name

/-- One round of the loop. -/
def iteration (name : Bytes) (rtype rclass : UInt16) (depth totalLabels : Nat) (s : Search) :
    Resolve (Search ⊕ Resolution) := do
  if s.nameservers.isEmpty then fail (.malformed "no nameservers to query")
  else
    let minimizedName ← call (minimizeName name totalLabels s)
    let id ← randomId
    let query ← call (buildQueryStatic minimizedName rtype rclass id cfg.dnssecOk false)
    match ← queryServersConcurrent query s.nameservers with
    | none => pure (.inl s.rotate)
    | some msg => do
        cacheResponse cfg s.zone msg
        handleReply self cfg name rtype rclass depth totalLabels s minimizedName msg

/-! ### The loop -/

/-- The rounds that are left. -/
def iterate (name : Bytes) (rtype rclass : UInt16) (depth totalLabels : Nat) :
    Nat → Search → Resolve Resolution
  | 0, _ => fail (.malformed "maximum iterations exceeded")
  | n + 1, s => do
      match ← iteration self cfg name rtype rclass depth totalLabels s with
      | .inl s => iterate name rtype rclass depth totalLabels n s
      | .inr result => pure result

/-- The search before the first round, from the delegation cache or the root. -/
def startSearch (name : Bytes) (qnameMinimize : Bool) : Option (List IpAddr × Bytes) → Search
  | some (servers, zone) => ⟨servers, zone, countLabels name, false⟩
  | none => ⟨initialRootAddrs, [0], if qnameMinimize then 1 else countLabels name, false⟩

/-- The body of `resolve_recursive`. -/
def resolveRecursiveBody (name : Bytes) (rtype rclass : UInt16) (depth : Nat)
    (qnameMinimize : Bool) : Resolve Resolution := do
  if depth > maxCnameDepth then fail (.malformed "CNAME chain too deep")
  else
    let cached ← lookupDelegation name
    iterate self cfg name rtype rclass depth (countLabels name) maxIterations
      (startSearch name qnameMinimize cached)

end Calls

/-- `resolve_recursive`, with at most so many calls nested in each other. -/
def resolveRecursive : Nat → Recursive
  | 0 => fun _ _ _ _ _ _ _ _ => .diverge
  | fuel + 1 => fun cfg => resolveRecursiveBody (resolveRecursive fuel) cfg

end FastDns.Resolver
