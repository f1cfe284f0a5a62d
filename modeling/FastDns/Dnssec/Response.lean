/-
`validate_response` of `src/dnssec/mod.rs`, with the fetches it makes.

A fetch asks the cache and then, one after the other, the root servers over UDP;
a server that stays silent is waited for without a limit. Only answers of the
requested type are kept.

`fetchRecords_yields` shows that no fetch ever returns a signature: the cache
has no parsed records and the filter drops them from a reply. So no chain is
secure (`validateChain_yields`) and no RRset is ever verified
(`verifyRrset_yields`), and the verdict on a response is a function of the
response alone (`validateResponse_yields`).
-/

import FastDns.Dns.RoundTrip
import FastDns.Dnssec.Denial

namespace FastDns.Dnssec

open FastDns.Lib FastDns.Dns FastDns.Resolver

/-! ### Fetches -/

/-- `.ok()`: an error becomes `None`. -/
def okOf {α : Type} (x : DnsResult α) : Validate (Option α) := do
  let result ← Run.lift id x.attempt
  pure result.toOption

/-- `rand::thread_rng().gen()` -/
def readRandomId : Validate UInt16 := do
  let world ← Run.read
  let n ← nextReading
  pure (world.queryId n)

/-- `Instant::now()` -/
def readInstant : Validate Nat := do
  let world ← Run.read
  let n ← nextReading
  pure (world.clock n)

/-- A change of the counters. -/
def countStats (f : ValidationStats → ValidationStats) : Validate Unit :=
  Run.modify fun s => { s with stats := f s.stats }

/-- `udp_query`. There is no deadline: without a datagram it never returns. -/
def udpQuery (queryBytes : Bytes) (server : SocketAddr) (expectedId : UInt16) :
    Validate (Option Message) := do
  let world ← Run.read
  let n ← nextReading
  match world.receive n queryBytes server with
  | .failed => pure none
  | .silent => Run.lift id .diverge
  | .datagram bytes =>
      -- The buffer has 8192 bytes; what does not fit is cut off.
      let received := bytes.take 8192
      if received.length ≥ 2 ∧ u16At received 0 = expectedId then okOf (decodeMessage received)
      else pure none

/-- `build_query` -/
def buildQuery (name : Bytes) (rtype rclass : UInt16) : Validate (Option Bytes) := do
  match ← okOf (encodeDomainName name) with
  | none => pure none
  | some encoded =>
      let id ← readRandomId
      okOf (encodeMessage {
        header := Header.newQuery id false
        questions := [⟨encoded, rtype, rclass⟩]
        answers := []
        authorities := []
        additionals := [{ OptRecord.new true with udpPayloadSize := 4096 }.toResourceRecord] })

/-- `query_rtype` -/
def queryRtype (zone : Bytes) (rtype rclass : UInt16) (servers : List SocketAddr) :
    Validate (List ResourceRecord) := do
  match ← buildQuery zone rtype rclass with
  | none => pure []
  | some queryBytes =>
      let expectedId ← Run.lift id (readU16 queryBytes 0)
      let found ← servers.findSomeM? fun server => do
        let reply ← udpQuery queryBytes server expectedId
        let records := (reply.map fun msg => rrsetOf rtype msg.answers).getD []
        pure (if records.isEmpty then none else some records)
      pure (found.getD [])

/-- `cache.write().unwrap().lookup(..)`, for a name that can be encoded. -/
def lookupEncoded (encoded : Option Bytes) (rtype : UInt16) :
    Validate (Option (List ResourceRecord × UInt32)) :=
  match encoded with
  | some name => lookupCache (name, rtype, 1)
  | none => pure none

/-- `fetch_dnskeys` and `fetch_ds`: the cache, then the servers. What they send is
cached under the names it has. -/
def fetchRecords (rtype : UInt16) (countFetch countHit : ValidationStats → ValidationStats)
    (rootHints : List SocketAddr) (zone : Bytes) : Validate (List ResourceRecord) := do
  let encoded ← okOf (encodeDomainName zone)
  match ← lookupEncoded encoded rtype with
  | some (records, _) => pure records
  | none =>
      countStats countFetch
      let records ← queryRtype zone rtype 1 rootHints
      -- The source encodes the name a second time, with the same result.
      if !records.isEmpty && encoded.isSome then do
        insertCache records
        countStats countHit
      pure records

/-- `fetch_dnskeys` -/
def fetchDnskeys : List SocketAddr → Bytes → Validate (List ResourceRecord) :=
  fetchRecords 48 (fun s => { s with dnskeyFetches := s.dnskeyFetches + 1 })
    fun s => { s with dnskeyCacheHits := s.dnskeyCacheHits + 1 }

/-- `fetch_ds` -/
def fetchDs : List SocketAddr → Bytes → Validate (List ResourceRecord) :=
  fetchRecords 43 (fun s => { s with dsFetches := s.dsFetches + 1 })
    fun s => { s with dsCacheHits := s.dsCacheHits + 1 }

/-! ### The verdict on a response -/

/-- A record of `TRUST_ANCHORS`. -/
def trustAnchorRecord (publicKey : Bytes) : ResourceRecord where
  name := [0]
  rtype := 48
  rclass := 1
  ttl := 172800
  rdlength := UInt16.ofNat publicKey.length + 4
  rdata := dnskeyRdata 257 3 8 publicKey
  parsed := some (.dnskey ⟨257, 3, 8, publicKey⟩)

/-- `TRUST_ANCHORS` -/
def trustAnchorRecords : List ResourceRecord :=
  [rootKsk2017PublicKey, rootKsk2024PublicKey].map trustAnchorRecord

inductive RrsetVerdict where
  | verified
  | bogus
deriving DecidableEq, Repr

inductive RrsigOutcome where
  | verified
  | chainBogus
  | noMatchingKey
deriving DecidableEq, Repr

inductive KeyOutcome where
  | verified
  | chainBogus
  | skip
deriving DecidableEq, Repr

/-- `matching_rrsigs_for` -/
def matchingRrsigsFor (allRrsigs : List ResourceRecord) (name : Bytes) (qtype : UInt16) :
    List ResourceRecord :=
  allRrsigs.filter (signatureMatches name qtype)

section Verify

variable (rootHints : List SocketAddr)

/-- `validate_chain`, as the response validator calls it. -/
def chainStatus (signerName : Bytes) (dnskeyResponse : List ResourceRecord) :
    Validate DnssecStatus :=
  validateChain (fetchDs rootHints) (fetchDnskeys rootHints) trustAnchorRecords 0 signerName
    dnskeyResponse

/-- `try_verify_with_key` -/
def tryVerifyWithKey (dk rrsig : ResourceRecord) (rrset : List ResourceRecord)
    (signerName : Bytes) (dnskeyResponse : List ResourceRecord) : Validate KeyOutcome := do
  let verified ← rrsigVerifiedBy rrsig dk rrset
  if !verified then pure .skip
  else
    let status ← chainStatus rootHints signerName dnskeyResponse
    pure (match status with
      | .secure => .verified
      | .bogus => .chainBogus
      | _ => .skip)

/-- `try_verify_rrsig` -/
def tryVerifyRrsig (rrset : List ResourceRecord) (rrsig : ResourceRecord) :
    Validate RrsigOutcome :=
  match rrsig.parsed with
  | some (.rrsig s) => do
      let signerName := labelsToString s.signerName
      let dnskeyResponse ← fetchDnskeys rootHints signerName
      let outcome ← (dnskeyResponse.filter isDnskey).findSomeM? fun dk => do
        let outcome ← tryVerifyWithKey rootHints dk rrsig rrset signerName dnskeyResponse
        pure (match outcome with
          | .verified => some RrsigOutcome.verified
          | .chainBogus => some .chainBogus
          | .skip => none)
      pure (outcome.getD .noMatchingKey)
  | _ => pure .noMatchingKey

/-- `verify_rrset` -/
def verifyRrset (rrset matchingRrsigs : List ResourceRecord) : Validate RrsetVerdict := do
  let verdict ← matchingRrsigs.findSomeM? fun rrsig => do
    let outcome ← tryVerifyRrsig rootHints rrset rrsig
    pure (match outcome with
      | .verified => some RrsetVerdict.verified
      | .chainBogus => some .bogus
      | .noMatchingKey => none)
  pure (verdict.getD .bogus)

/-- The zones of `prefetch_signer_dnskeys`, each once. -/
def signerZones (toLowercase : Bytes → Bytes) (allRrsigs : List ResourceRecord) : List Bytes :=
  allRrsigs.foldl (fun zones r =>
    match r.parsed with
    | some (.rrsig s) =>
        let lower := toLowercase (labelsToString s.signerName)
        if zones.contains lower then zones else zones ++ [lower]
    | _ => zones) []

/-- `prefetch_signer_dnskeys` -/
def prefetchSignerDnskeys (allRrsigs : List ResourceRecord) : Validate Unit := do
  let world ← Run.read
  (signerZones world.toLowercase allRrsigs).forM fun zone => do
    let _ ← fetchDnskeys rootHints zone

/-- `finish`: the counters, with the time since `start`. -/
def finish (start : Nat) (status : DnssecStatus) : Validate (DnssecStatus × ValidationStats) := do
  let now ← readInstant
  let s ← Run.get
  pure (status, { s.stats with elapsedMs := UInt64.ofNat ((now - start) / 1000000) })

/-- The signatures of a response, in all sections. -/
def allRrsigs (response : Message) : List ResourceRecord := response.records.filter isRrsig

/-- The name and the type of the first question, the root name and 0 without one. -/
def firstQuestion (response : Message) : Bytes × UInt16 :=
  (response.questions.head?.map fun q => (q.qname, q.qtype)).getD ([0], 0)

/-- `validate_response` -/
def validateResponse (response : Message) : Validate (DnssecStatus × ValidationStats) := do
  let start ← readInstant
  countStats fun _ => ⟨0, 0, 0, 0, 0⟩
  if (allRrsigs response).isEmpty then finish start .insecure
  else
    prefetchSignerDnskeys rootHints (allRrsigs response)
    let rrsets := groupRrsets response.answers
    let bogus ← rrsets.findSomeM? fun rrset => do
      let matchingRrsigs := matchingRrsigsFor (allRrsigs response) rrset.name rrset.qtype
      -- No signature for this RRset: go on with the next one.
      if matchingRrsigs.isEmpty then pure none
      else
        let verdict ← verifyRrset rootHints rrset.records matchingRrsigs
        pure (if verdict = .bogus then some () else none)
    if bogus.isSome then finish start .bogus
    else if rrsets.isEmpty then
      let (qname, qtype) := firstQuestion response
      let denial ← validateDenial response.authorities (allRrsigs response) (labelsToString qname)
        qtype (response.header.rcode = 3)
      finish start denial
    else finish start .secure

end Verify

/-! ### What a fetch returns -/

section Fetch

variable {world : World}

theorem countStats_yields (f : ValidationStats → ValidationStats) :
    Run.Yields world CacheBuilt (countStats f) fun _ => True :=
  Run.yields_modify fun _ hs => hs

theorem readInstant_yields : Run.Yields world CacheBuilt readInstant fun _ => True := by
  refine Run.yields_bind Run.yields_read fun _ _ => ?_
  exact Run.yields_bind nextReading_yields fun _ _ => Run.yields_pure trivial

theorem readRandomId_yields : Run.Yields world CacheBuilt readRandomId fun _ => True := by
  refine Run.yields_bind Run.yields_read fun _ _ => ?_
  exact Run.yields_bind nextReading_yields fun _ _ => Run.yields_pure trivial

theorem okOf_yields {α : Type} (x : DnsResult α) :
    Run.Yields world CacheBuilt (okOf x) fun o => ∀ a, o = some a → x = .ok a := by
  refine Run.yields_bind Run.yields_lift fun result hresult => Run.yields_pure fun a ha => ?_
  cases x with
  | ok b =>
      cases hresult
      cases ha
      rfl
  | err e =>
      cases hresult
      cases ha
  | panic => cases hresult
  | diverge => cases hresult

/-- A reply is the decoded form of what came in. -/
theorem udpQuery_yields (queryBytes : Bytes) (server : SocketAddr) (expectedId : UInt16) :
    Run.Yields world CacheBuilt (udpQuery queryBytes server expectedId) fun reply =>
      ∀ msg, reply = some msg → ∃ bytes, decodeMessage bytes = .ok msg := by
  refine Run.yields_bind Run.yields_read fun world' _ => ?_
  refine Run.yields_bind nextReading_yields fun n _ => ?_
  split
  · exact Run.yields_pure (fun _ hmsg => by cases hmsg)
  · exact Run.yields_mono Run.yields_lift fun _ hdiverge => by cases hdiverge
  · dsimp only
    split
    · exact Run.yields_mono (okOf_yields _) fun reply hreply msg hmsg => ⟨_, hreply msg hmsg⟩
    · exact Run.yields_pure (fun _ hmsg => by cases hmsg)

theorem buildQuery_yields (name : Bytes) (rtype rclass : UInt16) :
    Run.Yields world CacheBuilt (buildQuery name rtype rclass) fun _ => True := by
  refine Run.yields_bind (okOf_yields _) fun encoded _ => ?_
  cases encoded with
  | none => exact Run.yields_pure trivial
  | some encoded =>
      refine Run.yields_bind readRandomId_yields fun id _ => ?_
      exact Run.yields_mono (okOf_yields _) fun _ _ => trivial

/-- In a decoded message, a parsed signature stands in a record of type 46. -/
theorem isRrsig_of_decoded {bytes : Bytes} {msg : Message} (h : decodeMessage bytes = .ok msg)
    {r : ResourceRecord} (hr : r ∈ msg.records) (htype : r.rtype ≠ 46) : isRrsig r = false := by
  obtain ⟨off, next, hread⟩ := (decoded_message h).2 r hr
  unfold isRrsig
  rcases (decoded_record hread).2 with ⟨p, hp, hlayout⟩ | ⟨hnone, _⟩
  · rw [hp]
    split
    · rename_i sig hsig
      cases hsig
      generalize r.rtype = rtype, r.rdata = rdata at hlayout htype
      cases hlayout
      exact absurd rfl htype
    · rfl
  · rw [hnone]

/-- Replies are kept without their signatures. -/
theorem queryRtype_yields {rtype : UInt16} (htype : rtype ≠ 46) (zone : Bytes) (rclass : UInt16)
    (servers : List SocketAddr) :
    Run.Yields world CacheBuilt (queryRtype zone rtype rclass servers) fun records =>
      ∀ r ∈ records, isRrsig r = false := by
  refine Run.yields_bind (buildQuery_yields zone rtype rclass) fun query _ => ?_
  cases query with
  | none => exact Run.yields_pure fun r hr => absurd hr List.not_mem_nil
  | some queryBytes =>
      refine Run.yields_bind Run.yields_lift fun expectedId _ => ?_
      refine Run.yields_findSomeM?_getD (fun r hr => absurd hr List.not_mem_nil) fun server _ => ?_
      refine Run.yields_bind (udpQuery_yields _ _ _) fun reply hreply => Run.yields_pure ?_
      intro records hrecords r hr
      cases reply with
      | none => cases hrecords
      | some msg =>
          obtain ⟨bytes, hdecoded⟩ := hreply msg rfl
          split at hrecords
          · cases hrecords
          cases hrecords
          obtain ⟨hanswer, hrtype⟩ := mem_rrsetOf.mp hr
          exact isRrsig_of_decoded hdecoded
            (List.mem_append_left _ (List.mem_append_left _ hanswer)) (hrtype ▸ htype)

/-- **No fetch returns a signature**, from the cache or from a server. -/
theorem fetchRecords_yields {rtype : UInt16} (htype : rtype ≠ 46)
    (countFetch countHit : ValidationStats → ValidationStats) (rootHints : List SocketAddr)
    (zone : Bytes) :
    Run.Yields world CacheBuilt (fetchRecords rtype countFetch countHit rootHints zone)
      fun records => ∀ r ∈ records, isRrsig r = false := by
  refine Run.yields_bind (okOf_yields _) fun encoded _ => ?_
  have hlookup : Run.Yields world CacheBuilt (lookupEncoded encoded rtype) fun hit =>
      ∀ records least, hit = some (records, least) → ∀ r ∈ records, r.parsed = none := by
    cases encoded with
    | none => exact Run.yields_pure (fun _ _ hhit => by cases hhit)
    | some name => exact lookupCache_yields _
  refine Run.yields_bind hlookup fun hit hhit => ?_
  cases hit with
  | some answer =>
      refine Run.yields_pure fun r hr => ?_
      rw [isRrsig, hhit answer.1 answer.2 rfl r hr]
  | none =>
      refine Run.yields_bind (countStats_yields _) fun _ _ => ?_
      refine Run.yields_bind (queryRtype_yields htype _ _ _) fun records hrecords => ?_
      dsimp only
      split
      · refine Run.yields_bind (insertCache_yields _) fun _ _ => ?_
        exact Run.yields_bind (countStats_yields _) fun _ _ => Run.yields_pure hrecords
      · exact Run.yields_pure hrecords

end Fetch

/-! ### What becomes of an RRset -/

section Outcomes

variable {world : World} (rootHints : List SocketAddr)

theorem Reads.cacheBuilt {s s' : ValidationSt} (h : Reads s s') (hs : CacheBuilt s) :
    CacheBuilt s' := by
  rw [CacheBuilt, h.1]
  exact hs

theorem verifyRrsetSigned_yields (records : List ResourceRecord) (rrsetType : UInt16)
    (signingKeys : List ResourceRecord) :
    Run.Yields world CacheBuilt (verifyRrsetSigned records rrsetType signingKeys) fun _ => True :=
  fun _ hs _ _ h => ⟨(verifyRrsetSigned_spec h).1.cacheBuilt hs, trivial⟩

/-- The walk calls the cache only through the fetches. -/
theorem validateChainFrom_yields {fetchDs fetchDnskeys : Bytes → Validate (List ResourceRecord)}
    {trustAnchors : List ResourceRecord}
    (hds : ∀ zone, Run.Yields world CacheBuilt (fetchDs zone) fun _ => True)
    (hkeys : ∀ zone, Run.Yields world CacheBuilt (fetchDnskeys zone) fun _ => True)
    (remaining : Nat) (zone : Bytes) (zoneRecords : List ResourceRecord) :
    Run.Yields world CacheBuilt
      (validateChainFrom fetchDs fetchDnskeys trustAnchors remaining zone zoneRecords)
      fun _ => True := by
  induction remaining generalizing zone zoneRecords with
  | zero => exact Run.yields_pure trivial
  | succ remaining ih =>
      rw [validateChainFrom]
      refine Run.yields_bind Run.yields_read fun _ _ => ?_
      split
      · refine Run.yields_bind (verifyRrsetSigned_yields _ _ _) fun _ _ => ?_
        exact Run.yields_pure trivial
      split
      · exact Run.yields_pure trivial
      refine Run.yields_bind (hds zone) fun dsResponse _ => ?_
      split
      · exact Run.yields_pure trivial
      dsimp only
      split
      · exact Run.yields_pure trivial
      refine Run.yields_bind (verifyRrsetSigned_yields _ _ _) fun _ _ => ?_
      split
      · exact Run.yields_pure trivial
      refine Run.yields_bind (hkeys _) fun parentRecords _ => ?_
      split
      · exact Run.yields_pure trivial
      refine Run.yields_bind (ih _ _) fun _ _ => ?_
      split
      · exact Run.yields_pure trivial
      refine Run.yields_bind (verifyRrsetSigned_yields _ _ _) fun _ _ => ?_
      exact Run.yields_pure trivial

/-- Both ways to a secure verdict ask for a signature over the keys. -/
theorem signed_of_validateChainFrom
    {fetchDs fetchDnskeys : Bytes → Validate (List ResourceRecord)}
    {trustAnchors zoneRecords : List ResourceRecord} {remaining : Nat} {zone : Bytes}
    {s s' : ValidationSt}
    (h : validateChainFrom fetchDs fetchDnskeys trustAnchors remaining zone zoneRecords world s =
      .ok (.secure, s')) :
    ∃ r ∈ zoneRecords, isRrsig r = true := by
  cases remaining with
  | zero => cases h
  | succ remaining =>
      have hsigned : ∃ keys s₁ s₂,
          verifyRrsetSigned zoneRecords 48 keys world s₁ = .ok (true, s₂) := by
        rcases validateChainFrom_secure_cases h with ⟨_, hroot⟩ | ⟨_, _, _, _, _, _, _, hlink, _⟩
        · exact ⟨_, _, _, hroot⟩
        · exact ⟨_, _, _, hlink⟩
      obtain ⟨keys, s₁, s₂, hverify⟩ := hsigned
      obtain ⟨r, hr, _, _, _, _, _, _, sig, _, hsig, _⟩ := (verifyRrsetSigned_spec hverify).2 rfl
      exact ⟨r, hr, by rw [isRrsig, hsig]⟩

/-- **No chain from fetched keys is secure.** -/
theorem chainStatus_yields {keys : List ResourceRecord} (hkeys : ∀ r ∈ keys, isRrsig r = false)
    (signerName : Bytes) :
    Run.Yields world CacheBuilt (chainStatus rootHints signerName keys) fun status =>
      status ≠ .secure := by
  have hds : ∀ zone, Run.Yields world CacheBuilt (fetchDs rootHints zone) fun _ => True :=
    fun zone => Run.yields_mono (fetchRecords_yields (by decide) _ _ _ _) fun _ _ => trivial
  have hdnskeys : ∀ zone, Run.Yields world CacheBuilt (fetchDnskeys rootHints zone)
      fun _ => True :=
    fun zone => Run.yields_mono (fetchRecords_yields (by decide) _ _ _ _) fun _ _ => trivial
  intro s hs status s' h
  refine ⟨(validateChainFrom_yields hds hdnskeys _ _ _ s hs _ _ h).1, ?_⟩
  rintro rfl
  obtain ⟨r, hr, hsig⟩ := signed_of_validateChainFrom h
  rw [hkeys r hr] at hsig
  cases hsig

theorem tryVerifyWithKey_yields {keys : List ResourceRecord}
    (hkeys : ∀ r ∈ keys, isRrsig r = false) (dk rrsig : ResourceRecord)
    (rrset : List ResourceRecord) (signerName : Bytes) :
    Run.Yields world CacheBuilt (tryVerifyWithKey rootHints dk rrsig rrset signerName keys)
      fun outcome => outcome ≠ .verified := by
  have hverify : Run.Yields world CacheBuilt (rrsigVerifiedBy rrsig dk rrset) fun _ => True :=
    fun s hs b s' h => ⟨(rrsigVerifiedBy_ok h).1.cacheBuilt hs, trivial⟩
  refine Run.yields_bind hverify fun verified _ => ?_
  split
  · exact Run.yields_pure (by decide)
  refine Run.yields_bind (chainStatus_yields rootHints hkeys signerName) fun status hstatus => ?_
  refine Run.yields_pure ?_
  cases status with
  | secure => exact absurd rfl hstatus
  | bogus => decide
  | insecure => decide
  | indeterminate => decide

theorem tryVerifyRrsig_yields (rrset : List ResourceRecord) (rrsig : ResourceRecord) :
    Run.Yields world CacheBuilt (tryVerifyRrsig rootHints rrset rrsig) fun outcome =>
      outcome ≠ .verified := by
  unfold tryVerifyRrsig
  split
  · refine Run.yields_bind (fetchRecords_yields (by decide) _ _ _ _) fun keys hkeys => ?_
    refine Run.yields_findSomeM?_getD (by decide) fun dk _ => ?_
    refine Run.yields_bind (tryVerifyWithKey_yields rootHints hkeys dk _ rrset _)
      fun outcome houtcome => Run.yields_pure ?_
    cases outcome with
    | verified => exact absurd rfl houtcome
    | chainBogus =>
        rintro _ ⟨⟩
        decide
    | skip => rintro _ ⟨⟩
  · exact Run.yields_pure (by decide)

/-- **No RRset is ever verified.** -/
theorem verifyRrset_yields (rrset matchingRrsigs : List ResourceRecord) :
    Run.Yields world CacheBuilt (verifyRrset rootHints rrset matchingRrsigs) fun verdict =>
      verdict = .bogus := by
  refine Run.yields_findSomeM?_getD rfl fun rrsig _ => ?_
  refine Run.yields_bind (tryVerifyRrsig_yields rootHints rrset rrsig)
    fun outcome houtcome => Run.yields_pure ?_
  cases outcome with
  | verified => exact absurd rfl houtcome
  | chainBogus =>
      rintro _ ⟨⟩
      rfl
  | noMatchingKey => rintro _ ⟨⟩

end Outcomes

/-! ### The verdict -/

/-- An answer with a signature that `matching_rrsigs_for` finds for its RRset. -/
def hasMatchingRrsig (response : Message) (r : ResourceRecord) : Bool :=
  !isRrsig r && (allRrsigs response).any (signatureMatches r.name r.rtype)

/-- The verdict on a response, read off the response. -/
def verdictOf (response : Message) : DnssecStatus :=
  if (allRrsigs response).isEmpty then .insecure
  else if response.answers.any (hasMatchingRrsig response) then .bogus
  else if response.answers.all isRrsig then .indeterminate
  else .secure

/-- What a secure verdict promises for an RRset: a signature of the response has
its owner and covers its type, and a fetched key that verifies it has a secure
chain. The fetch and the walk may start in any states, not only in those of the
run. -/
def ValidatedRrset (world : World) (rootHints : List SocketAddr) (response : Message)
    (rrset : Rrset) : Prop :=
  ∃ rrsig ∈ allRrsigs response, rrsig.name = rrset.name ∧ coversType rrset.qtype rrsig = true ∧
    ∃ zone keys s s₁, CacheBuilt s ∧ fetchDnskeys rootHints zone world s = .ok (keys, s₁) ∧
      (∃ dk ∈ keys, ∃ n, VerifiedAt world n rrsig dk rrset.records) ∧
      ∃ s₂ s₃, chainStatus rootHints zone keys world s₂ = .ok (.secure, s₃)

section Verdict

variable {world : World} {rootHints : List SocketAddr} {response : Message}

theorem prefetchSignerDnskeys_yields (rrsigs : List ResourceRecord) :
    Run.Yields world CacheBuilt (prefetchSignerDnskeys rootHints rrsigs) fun _ => True := by
  refine Run.yields_bind Run.yields_read fun _ _ => Run.yields_forM fun zone _ => ?_
  exact Run.yields_bind (fetchRecords_yields (by decide) _ _ _ _) fun _ _ =>
    Run.yields_pure trivial

theorem finish_yields (start : Nat) (status : DnssecStatus) :
    Run.Yields world CacheBuilt (finish start status) fun verdict => verdict.1 = status := by
  refine Run.yields_bind readInstant_yields fun now _ => ?_
  exact Run.yields_bind Run.yields_get fun s _ => Run.yields_pure rfl

theorem any_hasMatchingRrsig :
    response.answers.any (hasMatchingRrsig response) = true ↔
      ∃ r ∈ response.answers, isRrsig r = false ∧
        ∃ rrsig ∈ allRrsigs response, signatureMatches r.name r.rtype rrsig = true := by
  simp only [List.any_eq_true, hasMatchingRrsig, Bool.and_eq_true, Bool.not_eq_true']

/-- An answer has a matching signature when its RRset does. -/
theorem exists_group_iff :
    (∃ rrset ∈ groupRrsets response.answers,
        matchingRrsigsFor (allRrsigs response) rrset.name rrset.qtype ≠ []) ↔
      response.answers.any (hasMatchingRrsig response) = true := by
  have hfilter : ∀ name qtype, matchingRrsigsFor (allRrsigs response) name qtype ≠ [] ↔
      ∃ rrsig ∈ allRrsigs response, signatureMatches name qtype rrsig = true := by
    intro name qtype
    simp [matchingRrsigsFor, List.filter_eq_nil_iff]
  rw [any_hasMatchingRrsig]
  constructor
  · rintro ⟨rrset, hrrset, hmatching⟩
    obtain ⟨r, hr, hunsigned, rfl⟩ := mem_groupRrsets.mp hrrset
    exact ⟨r, hr, hunsigned, (hfilter _ _).mp hmatching⟩
  · rintro ⟨r, hr, hunsigned, hmatching⟩
    exact ⟨_, mem_groupRrsets.mpr ⟨r, hr, hunsigned, rfl⟩, (hfilter _ _).mpr hmatching⟩

theorem groupRrsets_isEmpty (records : List ResourceRecord) :
    (groupRrsets records).isEmpty = records.all isRrsig := by
  rw [Bool.eq_iff_iff, List.isEmpty_iff, List.eq_nil_iff_forall_not_mem, List.all_eq_true]
  constructor
  · intro hnone r hr
    by_contra hunsigned
    exact hnone _ (mem_groupRrsets.mpr ⟨r, hr, Bool.eq_false_iff.mpr hunsigned, rfl⟩)
  · intro hall rrset hrrset
    obtain ⟨r, hr, hunsigned, _⟩ := mem_groupRrsets.mp hrrset
    rw [hall r hr] at hunsigned
    cases hunsigned

/-- **The verdict depends on the response alone**: on no key, no reply, no clock. -/
theorem validateResponse_yields (response : Message) :
    Run.Yields world CacheBuilt (validateResponse rootHints response) fun verdict =>
      verdict.1 = verdictOf response := by
  refine Run.yields_bind readInstant_yields fun start _ => ?_
  refine Run.yields_bind (countStats_yields _) fun _ _ => ?_
  unfold verdictOf
  split
  · exact finish_yields start .insecure
  refine Run.yields_bind (prefetchSignerDnskeys_yields _) fun _ _ => ?_
  dsimp only
  refine Run.yields_bind (Run.yields_findSomeM? (R := fun rrset o => o = none ↔
    matchingRrsigsFor (allRrsigs response) rrset.name rrset.qtype = []) fun rrset _ => ?_)
      fun bogus hbogus => ?_
  · split
    · rename_i hempty
      exact Run.yields_pure (by simpa using hempty)
    · rename_i hmatching
      refine Run.yields_bind (verifyRrset_yields rootHints _ _) fun verdict hverdict => ?_
      exact Run.yields_pure (by simpa [hverdict] using hmatching)
  rcases hbogus with ⟨rfl, hnone⟩ | ⟨rrset, hrrset, found, rfl, hsome⟩
  · have hunmatched : ¬ response.answers.any (hasMatchingRrsig response) = true := by
      rw [← exists_group_iff]
      rintro ⟨rrset, hrrset, hmatching⟩
      exact hmatching ((hnone rrset hrrset).mp rfl)
    rw [if_neg hunmatched, ← groupRrsets_isEmpty]
    simp only [Option.isSome_none, Bool.false_eq_true, if_false]
    split
    · refine Run.yields_bind (validateDenial_yields _ _ _ _ _) fun denial hdenial => ?_
      exact Run.yields_mono (finish_yields start denial) fun verdict hv => hv.trans hdenial
    · exact finish_yields start .secure
  · have hmatched : response.answers.any (hasMatchingRrsig response) = true := by
      rw [← exists_group_iff]
      exact ⟨rrset, hrrset, fun hempty => by cases hsome.mpr hempty⟩
    rw [if_pos hmatched]
    exact finish_yields start .bogus

theorem not_validatedRrset (rrset : Rrset) :
    ¬ ValidatedRrset world rootHints response rrset := by
  rintro ⟨_, _, _, _, zone, keys, s, s₁, hs, hfetch, _, s₂, s₃, hchain⟩
  have hunsigned := (fetchRecords_yields (by decide) _ _ _ _ s hs keys s₁ hfetch).2
  obtain ⟨r, hr, hsig⟩ := signed_of_validateChainFrom hchain
  rw [hunsigned r hr] at hsig
  cases hsig

theorem verdictOf_ne_secure (hanswer : ∃ r ∈ response.answers, isRrsig r = false) :
    verdictOf response ≠ .secure ↔
      allRrsigs response = [] ∨ response.answers.any (hasMatchingRrsig response) = true := by
  have hall : ¬ response.answers.all isRrsig = true := by
    obtain ⟨r, hr, hunsigned⟩ := hanswer
    intro hall
    rw [List.all_eq_true.mp hall r hr] at hunsigned
    cases hunsigned
  unfold verdictOf
  by_cases hnone : (allRrsigs response).isEmpty = true
  · simp [List.isEmpty_iff.mp hnone]
  rw [if_neg hnone]
  have hsome : allRrsigs response ≠ [] := fun heq => hnone (List.isEmpty_iff.mpr heq)
  by_cases hmatched : response.answers.any (hasMatchingRrsig response) = true
  · simp [hmatched]
  · rw [if_neg hmatched, if_neg hall]
    simp [hsome, hmatched]

/-- **A secure verdict on a response is sound exactly when the response has no
signature at all, or one by a signer with the name of an answer over the type of
that answer.** Without signatures the verdict is insecure, with such a one it is
bogus, and otherwise it is secure without any signature checked. -/
theorem validateResponse_sound_iff (world : World) (rootHints : List SocketAddr)
    (response : Message) (s s' : ValidationSt) (verdict : DnssecStatus × ValidationStats)
    (hcache : s.cache.Reachable) (hanswer : ∃ r ∈ response.answers, isRrsig r = false)
    (h : validateResponse rootHints response world s = .ok (verdict, s')) :
    (verdict.1 = .secure → ∀ rrset ∈ groupRrsets response.answers,
        ValidatedRrset world rootHints response rrset) ↔
      allRrsigs response = [] ∨
        ∃ r ∈ response.answers, isRrsig r = false ∧
          ∃ rrsig ∈ allRrsigs response, signatureMatches r.name r.rtype rrsig = true := by
  have hverdict := (validateResponse_yields response s hcache verdict s' h).2
  rw [hverdict, ← any_hasMatchingRrsig, ← verdictOf_ne_secure hanswer]
  constructor
  · intro hsound hsecure
    obtain ⟨r, hr, hunsigned⟩ := hanswer
    exact not_validatedRrset _ (hsound hsecure _ (mem_groupRrsets.mpr ⟨r, hr, hunsigned, rfl⟩))
  · intro hne hsecure
    exact absurd hsecure hne

end Verdict

/-! ### An unsigned answer beside an unrelated signature -/

def sampleServer : SocketAddr := ⟨.v4 ⟨198, 41, 0, 4⟩, 53⟩

/-- A response to a question for `name` and type A. -/
def sampleResponse (name : Bytes) (authorities : List ResourceRecord) : Message where
  header := { Header.newQuery 7 false with
    qr := true, qdcount := 1, ancount := 1, nscount := UInt16.ofNat authorities.length }
  questions := [⟨name, 1, 1⟩]
  answers := [sampleRecord name 1 (.a ⟨192, 0, 2, 1⟩)]
  authorities
  additionals := []

/-- The address of `a.test`, and the signature over the keys of `test`. -/
def unsignedResponse : Message :=
  sampleResponse [1, 97, 4, 116, 101, 115, 116, 0]
    [sampleSignature sampleZoneName 48 1 63441 sampleZoneName zoneKeySignature]

/-- The address of `test`, with a signature by `test` over its addresses. -/
def selfSignedResponse : Message :=
  sampleResponse sampleZoneName
    [sampleSignature sampleZoneName 1 1 63441 sampleZoneName zoneKeySignature]

theorem reachable_initial : ValidationSt.initial.cache.Reachable := ⟨[], .inl rfl⟩

/-- With a signature that matches, the verdict is bogus. -/
theorem validateResponse_sound_iff_selfSigned :
    ∃ verdict s', validateResponse [sampleServer] selfSignedResponse
        (.unreachable sampleCrypto 1700000000) .initial = .ok (verdict, s') ∧
      verdict.1 = .bogus ∧
      (verdict.1 = .secure → ∀ rrset ∈ groupRrsets selfSignedResponse.answers,
        ValidatedRrset (.unreachable sampleCrypto 1700000000) [sampleServer] selfSignedResponse
          rrset) := by
  have hrun : (validateResponse [sampleServer] selfSignedResponse).result
      (.unreachable sampleCrypto 1700000000) .initial = .ok (.bogus, ⟨0, 2, 0, 0, 0⟩) := by
    decide +kernel
  obtain ⟨s', hs'⟩ := Run.result_eq_ok.mp hrun
  refine ⟨_, s', hs', rfl, (validateResponse_sound_iff _ _ _ _ _ _ reachable_initial ?_ hs').mpr
    (.inr ?_)⟩
  · exact ⟨_, List.mem_singleton.mpr rfl, by decide⟩
  · exact ⟨_, List.mem_singleton.mpr rfl, by decide, _, List.mem_singleton.mpr rfl, by decide⟩

/-- The response can be received, none of its signatures has the owner of the
answer, and it is secure though no server can be reached. -/
theorem unsignedResponse_secure :
    ((encodeMessage unsignedResponse).toOption.bind fun b => (decodeMessage b).toOption) =
        some unsignedResponse ∧
      ValidationSt.initial.cache.Reachable ∧
      (∃ r ∈ unsignedResponse.answers, isRrsig r = false ∧
        ∀ rrsig ∈ allRrsigs unsignedResponse, rrsig.name ≠ r.name) ∧
      (validateResponse [sampleServer] unsignedResponse).result
        (.unreachable sampleCrypto 1700000000) .initial = .ok (.secure, ⟨0, 1, 0, 0, 0⟩) ∧
      ¬ ∀ rrset ∈ groupRrsets unsignedResponse.answers,
        ValidatedRrset (.unreachable sampleCrypto 1700000000) [sampleServer] unsignedResponse
          rrset := by
  have hanswer : ∃ r ∈ unsignedResponse.answers, isRrsig r = false ∧
      ∀ rrsig ∈ allRrsigs unsignedResponse, rrsig.name ≠ r.name :=
    ⟨_, List.mem_singleton.mpr rfl, by decide, by decide⟩
  refine ⟨by decide +kernel, reachable_initial, hanswer, by decide +kernel, fun hvalid => ?_⟩
  obtain ⟨r, hr, hunsigned, _⟩ := hanswer
  exact not_validatedRrset _ (hvalid _ (mem_groupRrsets.mpr ⟨r, hr, hunsigned, rfl⟩))

end FastDns.Dnssec
