/-
Whether a query is answered.

Every response goes through the buffer of `encode_message`, 8192 bytes long, and
only a positive answer over UDP is ever cut. So a query stays unanswered, over
both transports, when its response is larger than the buffer, and an error that
is too large for a datagram is sent as it is. `AnswerFits` says when none of
this happens, in terms of the query and of what the resolver returned
(`request_answered_iff`).
-/

import FastDns.Server.Findings

namespace FastDns.Server

open FastDns.Lib FastDns.Dns

/-! ### What the resolver returns -/

/-- The returns of the resolver to a handler that has one question. -/
structure Resolution {ρ σ ε : Type} (api : ResolverApi ρ σ ε) (env : ρ) (world : σ)
    (question : Question) where
  result : Except DnsError (List ResourceRecord × Bool)
  dnskeys : Except DnsError (List ResourceRecord × Bool)
  rrsigs : List ResourceRecord
  afterResult : σ
  afterKeys : σ
  afterSigs : σ
  result_eq : api.resolveWithAd (labelsToString question.qname) question.qtype question.qclass env
    world = .ok (result, afterResult)
  dnskeys_eq : api.resolveWithAd (extractZone (labelsToString question.qname)) 48 question.qclass
    env afterResult = .ok (dnskeys, afterKeys)
  rrsigs_eq : api.resolveDnssec (labelsToString question.qname) 46 question.qclass env afterKeys =
    .ok (rrsigs, afterSigs)

namespace Resolution

variable {ρ σ ε : Type} {api : ResolverApi ρ σ ε} {env : ρ} {world : σ} {question : Question}
  (resolution : Resolution api env world question) (query : Message)

/-- The additional records of a positive answer. -/
def additionals : List ResourceRecord :=
  if clientWantsDnssec query then
    recordsOf resolution.dnskeys ++ resolution.rrsigs ++ [dnssecOptRecord]
  else []

/-- The response to the query. -/
def response : Message :=
  match resolution.result with
  | .ok (records, adFlag) => buildResponse query.header question records
      (resolution.additionals query) (clientWantsDnssec query && adFlag)
  | .error (.nxDomain soa ad) => nxdomainResponse query question soa ad
  | .error e =>
      ⟨Header.newResponse query.header.id (errorRcode e), echoed query question, [], [], []⟩

/-- The questions there must be room for. -/
def questions : List Question :=
  match resolution.result with
  | .ok _ => [question]
  | .error (.nxDomain _ _) => [question]
  | .error _ => echoed query question

/-- The records there must be room for. -/
def records : List ResourceRecord :=
  match resolution.result with
  | .ok (records, _) => records ++ resolution.additionals query
  | .error (.nxDomain soa _) => soa ++ if clientWantsDnssec query then [dnssecOptRecord] else []
  | .error _ => []

/-- 12 + sum(qname + 4) + sum(name + 10 + rdata) -/
def size : Nat :=
  12 + totalSize (fun q => q.qname.length + 4) (resolution.questions query) +
    totalSize (fun r => r.name.length + 10 + r.rdata.length) (resolution.records query)

/-- What the handlers find. -/
def finding : Finding :=
  match resolution.result with
  | .ok (records, adFlag) => .answer query question records (resolution.additionals query) adFlag
  | .error (.nxDomain soa ad) => .nameError query question soa ad
  | .error e => .failed query question e

/-- What is found for the query makes the response it gets. -/
theorem finding_response (data : Bytes) :
    (resolution.finding query).response data = resolution.response query := by
  unfold finding response
  generalize resolution.result = result
  cases result with
  | ok answer => rfl
  | error e => cases e <;> rfl

theorem finding_questions : (resolution.finding query).questions = resolution.questions query := by
  unfold finding questions
  generalize resolution.result = result
  cases result with
  | ok answer => rfl
  | error e => cases e <;> rfl

theorem finding_records : (resolution.finding query).records = resolution.records query := by
  unfold finding records
  generalize resolution.result = result
  cases result with
  | ok answer => rfl
  | error e => cases e <;> rfl

theorem finding_result : (resolution.finding query).result = resolution.result := by
  unfold finding
  generalize resolution.result = result
  cases result with
  | ok answer => rfl
  | error e => cases e <;> rfl

theorem finding_size : (resolution.finding query).size = resolution.size query := by
  rw [Finding.size, Finding.questionSize, finding_questions, finding_records]
  rfl

theorem wireSize_response : (resolution.response query).wireSize = resolution.size query := by
  rw [← finding_response resolution query [], Finding.wireSize_response, finding_size]

/-- The parts of the header of every response. -/
theorem response_header :
    (resolution.response query).header.id = query.header.id ∧
      (resolution.response query).header.tc = false := by
  unfold response
  split
  · exact ⟨rfl, rfl⟩
  · exact ⟨rfl, rfl⟩
  · exact ⟨rfl, rfl⟩

end Resolution

/-! ### What the handlers send -/

section Sent

variable {ρ σ ε : Type} {env : ρ} {world : σ} {api : ResolverApi ρ σ ε} {data : Bytes}
  {query : Message} {question : Question} {others : List Question}
  (resolution : Resolution api env world question)

/-- The additional records are what the resolver gives for the keys, or none. -/
theorem Resolution.dnssecAdditionals_eq (query : Message) :
    ∃ world', dnssecAdditionals api (clientWantsDnssec query) (labelsToString question.qname)
      question.qclass env ⟨resolution.afterResult, []⟩ =
        .ok (resolution.additionals query, ⟨world', []⟩) := by
  unfold dnssecAdditionals Resolution.additionals
  split
  · refine ⟨resolution.afterSigs, ?_⟩
    rw [Run.bind_of_ok (resolver_ok resolution.dnskeys_eq),
      Run.bind_of_ok (resolver_ok resolution.rrsigs_eq)]
    rfl
  · exact ⟨resolution.afterResult, rfl⟩

/-- The handler finds exactly this. -/
theorem Resolution.finds (hasked : Asked data query question) :
    Finds api env world data (resolution.finding query) := by
  obtain ⟨world', hadditionals⟩ := resolution.dnssecAdditionals_eq query
  have hresolved : resolved api env world question =
      .ok (resolution.result, resolution.afterResult) := resolution.result_eq
  unfold Resolution.finding
  generalize resolution.result = result at hresolved ⊢
  cases result with
  | ok answer => exact .answer hasked hresolved hadditionals
  | error e =>
      cases e with
      | nxDomain soa ad => exact .nameError hasked hresolved
      | _ => exact .failed hasked hresolved (by rintro _ _ ⟨⟩)

/-- The datagram that answers a query, if there is one. -/
theorem Resolution.sent_handleQuery (hdecode : decodeMessage data = .ok query)
    (hqr : query.header.qr = false) (hquestions : query.questions = question :: others) :
    sentBy (handleQuery api data env ⟨world, []⟩) =
      delivered (encodeMessage (resolution.response query))
        (datagram resolution.result (resolution.response query)) := by
  rw [(resolution.finds ⟨hdecode, hqr, others, hquestions⟩).sent, resolution.finding_response,
    resolution.finding_result]

/-- The frame that answers a query, if there is one. -/
theorem Resolution.sent_handleTcpConnection (request : Request) (rest : Bytes)
    (hdecode : decodeMessage request.bytes = .ok query)
    (hqr : query.header.qr = false) (hquestions : query.questions = question :: others) :
    sentBy (handleTcpConnection api (tcpFrame request.bytes ++ rest) env ⟨world, []⟩) =
      delivered (encodeMessage (resolution.response query)) tcpFrame := by
  have hne : request.bytes ≠ [] := by
    intro hnil
    rw [hnil] at hdecode
    cases hdecode
  rw [(resolution.finds ⟨hdecode, hqr, others, hquestions⟩).framed
    (readTcpRequest_frame request rest hne), resolution.finding_response]

end Sent

/-! ### Answered queries -/

/-- One datagram and one frame answer the query, with its id. A response that is
too large for a datagram has TC set there, and one that a frame has room for is
written in full. -/
structure Answered (query response : Message) (udp tcp : List Bytes) : Prop where
  udp : ∃ d header, udp = [d] ∧ Header.fromBytes d = .ok header ∧
    header.id = query.header.id ∧ (maxUdpPayload < response.wireSize → header.tc = true)
  tcp : ∃ d header, tcp = [tcpFrame d] ∧ Header.fromBytes d = .ok header ∧
    header.id = query.header.id ∧ (response.wireSize ≤ maxTcpMessage → d = response.wire)

/-- The question and the records fit into the buffer, the length of each record
is right, and only records of a positive answer are too large for a datagram. -/
structure AnswerFits {ρ σ ε : Type} {api : ResolverApi ρ σ ε} {env : ρ} {world : σ}
    {question : Question} (query : Message) (resolution : Resolution api env world question) :
    Prop where
  room : resolution.size query ≤ maxDnsMessageSize
  rdlengths : ∀ r ∈ resolution.records query, r.rdata.length = r.rdlength.toNat
  positive : maxUdpPayload < resolution.size query → ∃ answer, resolution.result = .ok answer

section Answers

variable {ρ σ ε : Type} {api : ResolverApi ρ σ ε} {env : ρ} {world : σ} {question : Question}
  {query : Message} (resolution : Resolution api env world question)

/-- A response is encoded if it fits and no record is too long. -/
theorem encodeMessage_response {m : Bytes} :
    encodeMessage (resolution.response query) = .ok m ↔
      resolution.size query ≤ maxDnsMessageSize ∧
        (∀ r ∈ resolution.records query, r.rdata.length = r.rdlength.toNat) ∧
        m = (resolution.response query).wire := by
  rw [← resolution.finding_response query [], Finding.encodeMessage_response,
    ← resolution.finding_size, ← resolution.finding_records]
  exact ⟨fun ⟨⟨hroom, hlengths⟩, hm⟩ => ⟨hroom, hlengths, hm⟩,
    fun ⟨hroom, hlengths, hm⟩ => ⟨⟨hroom, hlengths⟩, hm⟩⟩

/-- The first bytes of a response have room for its header. -/
theorem response_small :
    (resolution.response query).header.opcode = 0 ∧ (resolution.response query).header.z = 0 ∧
      (resolution.response query).header.rcode.toNat < 16 := by
  rw [← resolution.finding_response query []]
  exact Finding.response_header _ _

/-- One message is delivered exactly if it could be encoded. -/
theorem delivered_eq_singleton {encoded : DnsResult Bytes} {form : Bytes → Bytes} {d : Bytes} :
    delivered encoded form = [d] ↔ ∃ m, encoded = .ok m ∧ d = form m := by
  cases encoded <;> simp [delivered, eq_comm]

/-- The header of the datagram: TC is set for a positive answer that is cut. -/
theorem datagram_header (query : Message) :
    ∃ header, Header.fromBytes (datagram resolution.result (resolution.response query)
        (resolution.response query).wire) = .ok header ∧ header.id = query.header.id ∧
      (header.tc = true ↔
        maxUdpPayload < resolution.size query ∧ ∃ answer, resolution.result = .ok answer) := by
  obtain ⟨hid, htc⟩ := resolution.response_header query
  obtain ⟨header, hread, hsame⟩ :=
    header_of_response (response_small resolution) (wire_standsAt (resolution.response query)).1
  have hlength : (resolution.response query).wire.length = resolution.size query := by
    rw [Message.length_wire, resolution.wireSize_response]
  unfold datagram
  split
  · rename_i answer hresult
    split
    · rename_i hlarge
      have hheader : (truncated (resolution.response query)).header.opcode = 0 ∧
          (truncated (resolution.response query)).header.z = 0 ∧
          (truncated (resolution.response query)).header.rcode.toNat < 16 :=
        response_small resolution
      obtain ⟨header, hread, hcut⟩ := header_of_response hheader standsAt_take
      exact ⟨header, hread, hcut.id.trans hid, fun _ => ⟨hlength ▸ hlarge, answer, hresult⟩,
        fun _ => hcut.tc⟩
    · rename_i hsmall
      refine ⟨header, hread, hsame.id.trans hid, ?_⟩
      rw [hsame.tc, htc, ← hlength]
      simp [hsmall]
  · rename_i e hresult
    refine ⟨header, hread, hsame.id.trans hid, ?_⟩
    rw [hsame.tc, htc, hresult]
    simp

/-- Nothing is sent in answer to a response that is too large for the buffer. -/
theorem not_answered_of_size {udp : List Bytes} (h : maxDnsMessageSize < resolution.size query) :
    ¬ Answered query (resolution.response query) udp
      (delivered (encodeMessage (resolution.response query)) tcpFrame) := by
  rintro ⟨_, d, header, hsent, _⟩
  cases hm : encodeMessage (resolution.response query) with
  | ok m => exact absurd ((encodeMessage_response resolution).mp hm).1 (Nat.not_le.mpr h)
  | err e => rw [hm] at hsent; cases hsent
  | panic => rw [hm] at hsent; cases hsent
  | diverge => rw [hm] at hsent; cases hsent

/-- **When a query is answered**: both handlers answer a query exactly when what
they have to send fits into the buffer of `encode_message`, and into a datagram
if it is an error. -/
theorem request_answered_iff (request : Request) (rest : Bytes) (query : Message)
    (others : List Question) (hdecode : decodeMessage request.bytes = .ok query)
    (hqr : query.header.qr = false) (hquestions : query.questions = question :: others) :
    Answered query (resolution.response query)
        (sentBy (handleQuery api request.bytes env ⟨world, []⟩))
        (sentBy (handleTcpConnection api (tcpFrame request.bytes ++ rest) env ⟨world, []⟩)) ↔
      AnswerFits query resolution := by
  rw [resolution.sent_handleQuery hdecode hqr hquestions,
    resolution.sent_handleTcpConnection request rest hdecode hqr hquestions]
  obtain ⟨header, hread, hid, htc⟩ := datagram_header resolution query
  constructor
  · rintro ⟨⟨d, header', hsent, hread', _, hcut⟩, _⟩
    obtain ⟨m, hm, rfl⟩ := delivered_eq_singleton.mp hsent
    obtain ⟨hroom, hlengths, rfl⟩ := (encodeMessage_response resolution).mp hm
    obtain rfl := Outcome.ok.inj (hread'.symm.trans hread)
    rw [resolution.wireSize_response] at hcut
    exact ⟨hroom, hlengths, fun hlarge => (htc.mp (hcut hlarge)).2⟩
  · rintro ⟨hroom, hlengths, hpositive⟩
    have hm := (encodeMessage_response resolution).mpr ⟨hroom, hlengths, rfl⟩
    obtain ⟨hid', _⟩ := resolution.response_header query
    obtain ⟨framed, hframed, hsame⟩ :=
      header_of_response (response_small resolution) (wire_standsAt (resolution.response query)).1
    constructor
    · refine ⟨_, header, delivered_eq_singleton.mpr ⟨_, hm, rfl⟩, hread, hid, fun hlarge => ?_⟩
      rw [resolution.wireSize_response] at hlarge
      exact htc.mpr ⟨hlarge, hpositive hlarge⟩
    · exact ⟨_, framed, delivered_eq_singleton.mpr ⟨_, hm, rfl⟩, hframed, hsame.id.trans hid',
        fun _ => rfl⟩

end Answers

/-- A query for the address of `a`. -/
def addressQuery : Request where
  bytes := [0, 7, 1, 0, 0, 1, 0, 0, 0, 0, 0, 0, 1, 97, 0, 0, 1, 0, 1]
  framed := by decide

def addressQuestion : Question := ⟨[1, 97, 0], 1, 1⟩

def addressMessage : Message :=
  ⟨{ Header.newQuery 7 true with qdcount := 1 }, [addressQuestion], [], [], []⟩

/-- A resolver that returns one result. -/
def answering (result : Except DnsError (List ResourceRecord × Bool)) :
    ResolverApi Unit Unit Empty where
  resolveWithAd _ _ _ := pure result
  resolveDnssec _ _ _ := pure []

def answered (result : Except DnsError (List ResourceRecord × Bool)) (question : Question) :
    Resolution (answering result) () () question :=
  ⟨result, result, [], (), (), (), rfl, rfl, rfl⟩

def addressAnswer : Except DnsError (List ResourceRecord × Bool) :=
  .ok ([⟨[1, 97, 0], 1, 1, 60, 4, [10, 0, 0, 1], none⟩], false)

theorem request_answered_iff_address :
    AnswerFits addressMessage (answered addressAnswer addressQuestion) ∧
      Answered addressMessage ((answered addressAnswer addressQuestion).response addressMessage)
        (sentBy (handleQuery (answering addressAnswer) addressQuery.bytes () ⟨(), []⟩))
        (sentBy (handleTcpConnection (answering addressAnswer) (tcpFrame addressQuery.bytes ++ [])
          () ⟨(), []⟩)) := by
  have hfits : AnswerFits addressMessage (answered addressAnswer addressQuestion) :=
    ⟨by decide, by decide, fun _ => ⟨_, rfl⟩⟩
  exact ⟨hfits, (request_answered_iff _ addressQuery [] addressMessage [] rfl rfl rfl).mpr hfits⟩

/-- A TXT record of 33 strings of 255 bytes. -/
def longText : ResourceRecord where
  name := [1, 97, 0]
  rtype := 16
  rclass := 1
  ttl := 60
  rdlength := 8448
  rdata := (List.replicate 33 (255 :: List.replicate 255 97)).flatten
  parsed := none

/-- A text that upstream servers can send over TCP, and no client gets. -/
theorem long_text_unanswered :
    ¬ Answered addressMessage
      ((answered (.ok ([longText], false)) addressQuestion).response addressMessage)
      (sentBy (handleQuery (answering (.ok ([longText], false))) addressQuery.bytes () ⟨(), []⟩))
      (sentBy (handleTcpConnection (answering (.ok ([longText], false)))
        (tcpFrame addressQuery.bytes ++ []) () ⟨(), []⟩)) := by
  rw [(answered _ addressQuestion).sent_handleTcpConnection addressQuery [] rfl rfl rfl]
  apply not_answered_of_size
  have hsize : ∀ r, (answered (.ok ([r], false)) addressQuestion).size addressMessage =
      12 + 7 + (r.name.length + 10 + r.rdata.length + 0) := fun _ => rfl
  have hlength : longText.rdata.length = 33 * 256 := by
    simp only [longText, List.length_flatten, List.map_replicate, List.length_cons,
      List.length_replicate, List.sum_replicate_nat, Nat.reduceAdd]
  rw [hsize, hlength, maxDnsMessageSize]
  omega

end FastDns.Server
