/-
What a handler has found when it begins to answer.

Both handlers decode the request, ask the resolver and build one response, each
in its own lines. A `Finding` is what the response is made of: the request and
what the resolver returned, or the questions of a request that cannot be decoded.
`Finds` says which one the handlers come to. It has no more than one, the same
for both transports, and what is sent is its response if that can be written
(`forall_sent`, `forall_framed`); where there is none, nothing is sent.
-/

import FastDns.Server.Agreement

namespace FastDns.Server

open FastDns.Lib FastDns.Dns

/-! ### Findings -/

/-- The questions that come back with an error: none if the lower twelve bits of
the count are 0. -/
def echoed (query : Message) (question : Question) : List Question :=
  if query.header.qdcount.toNat % 4096 = 0 then [] else [question]

theorem errorRcode_lt (e : DnsError) : (errorRcode e).toNat < 16 := by
  unfold errorRcode
  split <;> decide

inductive Finding where
  /-- The request cannot be decoded. -/
  | undecodable (e : DnsError) (questions : List Question)
  | answer (query : Message) (question : Question) (records additionals : List ResourceRecord)
      (adFlag : Bool)
  | nameError (query : Message) (question : Question) (soa : List ResourceRecord) (ad : Bool)
  /-- Any other error of the resolver. -/
  | failed (query : Message) (question : Question) (e : DnsError)

namespace Finding

/-- What the resolver returned, or the error of the decoder. -/
def result : Finding → Except DnsError (List ResourceRecord × Bool)
  | undecodable e _ => .error e
  | answer _ _ records _ adFlag => .ok (records, adFlag)
  | nameError _ _ soa ad => .error (.nxDomain soa ad)
  | failed _ _ e => .error e

/-- The questions that are sent back. -/
def questions : Finding → List Question
  | undecodable _ questions => questions
  | answer _ question _ _ _ => [question]
  | nameError _ question _ _ => [question]
  | failed query question _ => echoed query question

/-- The records that are to be sent. -/
def records : Finding → List ResourceRecord
  | undecodable _ _ => []
  | answer _ _ records additionals _ => records ++ additionals
  | nameError query _ soa _ => soa ++ if clientWantsDnssec query then [dnssecOptRecord] else []
  | failed _ _ _ => []

/-- A header and the questions. -/
def questionSize (finding : Finding) : Nat :=
  12 + totalSize (fun q => q.qname.length + 4) finding.questions

def size (finding : Finding) : Nat :=
  finding.questionSize + totalSize (fun r => r.name.length + 10 + r.rdata.length) finding.records

/-- There is room in the buffer, and the length of each record is right. -/
structure Writable (finding : Finding) : Prop where
  room : finding.size ≤ maxDnsMessageSize
  rdlengths : ∀ r ∈ finding.records, r.rdata.length = r.rdlength.toNat

/-- The response of the handlers. -/
def response (data : Bytes) : Finding → Message
  | undecodable _ questions => ⟨Header.newResponse (u16At data 0) 1, questions, [], [], []⟩
  | answer query question records additionals adFlag =>
      buildResponse query.header question records additionals (clientWantsDnssec query && adFlag)
  | nameError query question soa ad => nxdomainResponse query question soa ad
  | failed query question e =>
      ⟨Header.newResponse query.header.id (errorRcode e), echoed query question, [], [], []⟩

section Response

variable (finding : Finding) (data : Bytes)

theorem response_records : (finding.response data).records.Perm finding.records := by
  cases finding with
  | answer query question records additionals adFlag =>
      have hsplit :=
        List.filter_append_perm (fun r : ResourceRecord => decide (r.rtype = 5)) records
      simp only [Message.records, response, Finding.records, buildResponse, List.append_nil, ne_eq,
        decide_not]
      exact hsplit.append_right _
  | _ => exact .refl _

theorem response_questions : (finding.response data).questions = finding.questions := by
  cases finding <;> rfl

theorem wireSize_response : (finding.response data).wireSize = finding.size := by
  rw [Message.wireSize, response_questions, totalSize_perm (finding.response_records data)]
  rfl

theorem encodeMessage_response {m : Bytes} :
    encodeMessage (finding.response data) = .ok m ↔
      finding.Writable ∧ m = (finding.response data).wire := by
  rw [encodeMessage_eq_ok, Message.length_wire, finding.wireSize_response]
  have hmem := fun r => (finding.response_records data).mem_iff (a := r)
  simp only [hmem]
  exact ⟨fun ⟨hroom, hlengths, hm⟩ => ⟨⟨hroom, hlengths⟩, hm⟩,
    fun ⟨⟨hroom, hlengths⟩, hm⟩ => ⟨hroom, hlengths, hm⟩⟩

/-- The parts of the header that its first bytes have room for. -/
theorem response_header :
    (finding.response data).header.opcode = 0 ∧ (finding.response data).header.z = 0 ∧
      (finding.response data).header.rcode.toNat < 16 := by
  cases finding with
  | undecodable e questions => exact ⟨rfl, rfl, (by decide : (1 : UInt8).toNat < 16)⟩
  | answer query question records additionals adFlag =>
      exact ⟨rfl, rfl, (by decide : (0 : UInt8).toNat < 16)⟩
  | nameError query question soa ad => exact ⟨rfl, rfl, (by decide : (3 : UInt8).toNat < 16)⟩
  | failed query question e => exact ⟨rfl, rfl, errorRcode_lt e⟩

end Response

end Finding

/-! ### What the handlers come to -/

/-- The request is a query, with this question first. -/
structure Asked (data : Bytes) (query : Message) (question : Question) : Prop where
  decoded : decodeMessage data = .ok query
  isQuery : query.header.qr = false
  first : ∃ others, query.questions = question :: others

section Finds

variable {ρ σ ε : Type} (api : ResolverApi ρ σ ε) (env : ρ) (world : σ) (data : Bytes)

/-- The call on the resolver that both handlers begin with. -/
def resolved (question : Question) :
    Outcome (ε × σ) (Except DnsError (List ResourceRecord × Bool) × σ) :=
  api.resolveWithAd (labelsToString question.qname) question.qtype question.qclass env world

inductive Finds : Finding → Prop where
  | undecodable {e : DnsError} {questions : List Question} : decodeMessage data = .err e →
      2 ≤ data.length → quickErrorQuestions data = .ok questions →
      Finds (.undecodable e questions)
  | answer {query : Message} {question : Question} {records additionals : List ResourceRecord}
      {adFlag : Bool} {world' : σ} {st : ServerSt σ} : Asked data query question →
      resolved api env world question = .ok (.ok (records, adFlag), world') →
      dnssecAdditionals api (clientWantsDnssec query) (labelsToString question.qname)
        question.qclass env ⟨world', []⟩ = .ok (additionals, st) →
      Finds (.answer query question records additionals adFlag)
  | nameError {query : Message} {question : Question} {soa : List ResourceRecord} {ad : Bool}
      {world' : σ} : Asked data query question →
      resolved api env world question = .ok (.error (.nxDomain soa ad), world') →
      Finds (.nameError query question soa ad)
  | failed {query : Message} {question : Question} {e : DnsError} {world' : σ} :
      Asked data query question → resolved api env world question = .ok (.error e, world') →
      (∀ soa ad, e ≠ .nxDomain soa ad) → Finds (.failed query question e)

end Finds

/-! ### Quick error responses -/

section Quick

variable {data : Bytes} {query : Message} {question : Question} {others : List Question}

/-- The first question of a message stands behind the header. -/
theorem first_question (hdecode : decodeMessage data = .ok query)
    (hquestions : query.questions = question :: others) :
    ∃ next, Question.fromBytes data 12 = .ok (question, next) := by
  obtain ⟨_, _, _, _, _, hread, _⟩ := decodeMessage_eq_ok hdecode
  rw [hquestions] at hread
  cases hcount : query.header.qdcount.toNat with
  | zero =>
      rw [hcount] at hread
      cases hread
  | succ count =>
      rw [hcount] at hread
      obtain ⟨first, mid, rest, hfirst, _, hitems⟩ := parseItems_succ_eq_ok hread
      cases hitems
      exact ⟨mid, hfirst⟩

theorem masked_count (high low : UInt8) :
    (u16FromBeBytes (high &&& 0x0f) low).toNat = (u16FromBeBytes high low).toNat % 4096 := by
  have hmask : (high &&& 0x0f).toNat = high.toNat % 16 := by
    rw [UInt8.toNat_and]
    exact Nat.and_two_pow_sub_one_eq_mod _ 4
  have hhigh := high.toNat_lt
  have hlow := low.toNat_lt
  rw [u16FromBeBytes, u16FromBeBytes, UInt16.toNat_ofNat', UInt16.toNat_ofNat', hmask]
  omega

theorem quickErrorQuestions_eq (hdecode : decodeMessage data = .ok query)
    (hquestions : query.questions = question :: others) :
    quickErrorQuestions data = .ok (echoed query question) := by
  have hread := header_eq_ok.mp (decodeMessage_header hdecode)
  have hlen := hread.long
  obtain ⟨next, hfirst⟩ := first_question hdecode hquestions
  have hmasked := masked_count (data.getD 4 0) (data.getD 5 0)
  unfold quickErrorQuestions
  rw [if_pos hlen, index_eq_getD (by omega), Outcome.ok_bind, index_eq_getD (by omega),
    Outcome.ok_bind, hfirst, echoed, hread.qdcount]
  dsimp only
  rw [u16At]
  split
  · rename_i hpos
    rw [if_neg]
    · rfl
    · rw [← hmasked]
      exact Nat.pos_iff_ne_zero.mp (UInt16.lt_iff_toNat_lt.mp hpos)
  · rename_i hzero
    rw [if_pos]
    · rfl
    · rw [← hmasked]
      exact Nat.eq_zero_of_not_pos fun hpos => hzero (UInt16.lt_iff_toNat_lt.mpr hpos)

/-- The quick error response, if there is an encoding of it. -/
theorem quickErrorResponse_of_questions {questions : List Question} (hlen : 2 ≤ data.length)
    (hechoed : quickErrorQuestions data = .ok questions) (rcode : UInt8) :
    quickErrorResponse data rcode = (do
      let encoded ← (encodeMessage ⟨Header.newResponse (u16At data 0) rcode, questions, [], [],
        []⟩).attempt
      pure encoded.toOption) := by
  unfold quickErrorResponse
  rw [if_neg (Nat.not_lt.mpr hlen), readU16_of_le (by omega), Outcome.ok_bind, hechoed,
    Outcome.ok_bind]
  dsimp only
  cases encodeMessage ⟨Header.newResponse (u16At data 0) rcode, questions, [], [], []⟩ <;> rfl

/-- The quick error response to a query that was decoded. -/
theorem quickErrorResponse_eq (hdecode : decodeMessage data = .ok query)
    (hquestions : query.questions = question :: others) (rcode : UInt8) :
    quickErrorResponse data rcode = (do
      let encoded ← (encodeMessage ⟨Header.newResponse query.header.id rcode,
        echoed query question, [], [], []⟩).attempt
      pure encoded.toOption) := by
  have hread := header_eq_ok.mp (decodeMessage_header hdecode)
  have hlen := hread.long
  rw [quickErrorResponse_of_questions (by omega) (quickErrorQuestions_eq hdecode hquestions),
    hread.id]

end Quick

/-! ### One response -/

/-- One message if there is an encoding, else none. -/
def delivered (encoded : DnsResult Bytes) (form : Bytes → Bytes) : List Bytes :=
  match encoded with
  | .ok m => [form m]
  | _ => []

theorem mem_delivered {encoded : DnsResult Bytes} {form : Bytes → Bytes} {d : Bytes} :
    d ∈ delivered encoded form ↔ ∃ m, encoded = .ok m ∧ d = form m := by
  cases encoded <;> simp [delivered]

/-- What goes into the datagram. -/
def datagram (result : Except DnsError (List ResourceRecord × Bool)) (response : Message)
    (m : Bytes) : Bytes :=
  match result with
  | .ok _ =>
      if m.length > maxUdpPayload then (truncated response).wire.take maxUdpPayload else m
  | .error _ => m

section Sent

variable {ρ σ ε : Type} {env : ρ} {world : σ}

theorem resolver_ok {α : Type} {m : Run ρ σ ε α} {st : ServerSt σ} {a : α} {s : σ}
    (h : m env st.resolver = .ok (a, s)) :
    resolver m env st = .ok (a, { st with resolver := s }) := by
  rw [resolver, Run.within, h]

theorem sent_framed (response : Message) :
    sentBy ((call (encodeMessage response) >>= writeTcpResponse : Serve ρ σ ε Unit) env
      ⟨world, []⟩) = delivered (encodeMessage response) tcpFrame := by
  cases hm : encodeMessage response with
  | ok m =>
      rw [call_ok_bind, writeTcpResponse_encoded hm]
      rfl
  | err e => rfl
  | panic => rfl
  | diverge => rfl

theorem sent_answer (response : Message) (answer : List ResourceRecord × Bool) :
    sentBy ((sendAnswer response : Serve ρ σ ε Unit) env ⟨world, []⟩) =
      delivered (encodeMessage response) (datagram (.ok answer) response) := by
  unfold sendAnswer
  cases hm : encodeMessage response with
  | ok m =>
      rw [call_ok_bind, delivered, datagram]
      split
      · obtain ⟨t, ht⟩ := encodeMessage_truncated hm
        rw [ht, call_ok_bind, (encodeMessage_eq_ok.mp ht).2.2]
        rfl
      · rfl
  | err e => rfl
  | panic => rfl
  | diverge => rfl

/-- A response that is dropped if it cannot be written. -/
theorem sent_negative (response : Message) (e : DnsError) :
    sentBy ((do
      let encoded ← call (encodeMessage response).attempt
      sendSome encoded.toOption : Serve ρ σ ε Unit) env ⟨world, []⟩) =
      delivered (encodeMessage response) (datagram (.error e) response) := by
  cases encodeMessage response <;> rfl

/-- A quick error response is such a response. -/
theorem sent_quick {data : Bytes} {rcode : UInt8} {response : Message} (hquick :
      quickErrorResponse data rcode = (do
        let encoded ← (encodeMessage response).attempt
        pure encoded.toOption)) (e : DnsError) :
    sentBy ((call (quickErrorResponse data rcode) >>= sendSome : Serve ρ σ ε Unit) env
      ⟨world, []⟩) = delivered (encodeMessage response) (datagram (.error e) response) := by
  rw [hquick]
  cases encodeMessage response <;> rfl

/-- The same over TCP, where it can be an error that there is no response. -/
theorem framed_quick {data : Bytes} {rcode : UInt8} {response : Message}
    {f : Option Bytes → Serve ρ σ ε Unit} (hquick :
      quickErrorResponse data rcode = (do
        let encoded ← (encodeMessage response).attempt
        pure encoded.toOption))
    (hsome : ∀ m, f (some m) = writeTcpResponse m) (hnone : sentBy (f none env ⟨world, []⟩) = []) :
    sentBy ((call (quickErrorResponse data rcode) >>= f) env ⟨world, []⟩) =
      delivered (encodeMessage response) tcpFrame := by
  rw [hquick, ← sent_framed]
  cases encodeMessage response with
  | ok m => exact congrArg (fun p => sentBy (p env ⟨world, []⟩)) (hsome m)
  | err e => exact hnone
  | panic => rfl
  | diverge => rfl

end Sent

section Headers

/-- The header of a response where its bytes stand. -/
theorem header_of_response {response : Message} {d : Bytes}
    (hheader : response.header.opcode = 0 ∧ response.header.z = 0 ∧
      response.header.rcode.toNat < 16) (hat : StandsAt d 0 response.writtenHeader.wire) :
    ∃ header, Header.fromBytes d = .ok header ∧ SameHeader response.header header := by
  obtain ⟨header, hread, _, _, _, _, hsame⟩ := header_of_standsAt hat
  obtain ⟨hopcode, hz, hrcode⟩ := hheader
  obtain ⟨hid, hqr, hop, haa, htc, hrd, hra, had, hcd, hrc⟩ :=
    hsame (by rw [Message.writtenHeader, hopcode]; decide) hz hrcode
  exact ⟨header, hread, ⟨hid, hqr, hop, haa, htc, hrd, hra, had, hcd, hrc⟩⟩

/-- The header is in the part of a message that is not cut off. -/
theorem standsAt_take {m : Message} :
    StandsAt (m.wire.take maxUdpPayload) 0 m.writtenHeader.wire := by
  have hfull : m.writtenHeader.wire <+: m.wire := (wire_standsAt m).1
  refine List.prefix_take_iff.mpr ⟨hfull, ?_⟩
  rw [Header.length_wire, maxUdpPayload]
  omega

end Headers

/-! ### What is sent -/

section Handlers

variable {ρ σ ε : Type} {api : ResolverApi ρ σ ε} {env : ρ} {world world' : σ} {data stream : Bytes}
  {query : Message} {question : Question} {finding : Finding}
  {result : Except DnsError (List ResourceRecord × Bool)}

theorem handleQuery_eq (hasked : Asked data query question) :
    handleQuery api data = (do
      let result ← resolver
        (api.resolveWithAd (labelsToString question.qname) question.qtype question.qclass)
      sendResult api data query question result) := by
  obtain ⟨others, hquestions⟩ := hasked.first
  unfold handleQuery
  rw [hasked.decoded, Outcome.attempt_ok, call_ok_bind]
  dsimp only
  rw [hasked.isQuery, hquestions]

theorem handleQuery_asked (hasked : Asked data query question)
    (hresolved : resolved api env world question = .ok (result, world')) :
    handleQuery api data env ⟨world, []⟩ =
      sendResult api data query question result env ⟨world', []⟩ := by
  rw [handleQuery_eq hasked]
  exact Run.bind_of_ok (resolver_ok hresolved)

theorem handleTcpConnection_asked (hread : readTcpRequest stream = .ok data)
    (hasked : Asked data query question)
    (hresolved : resolved api env world question = .ok (result, world')) :
    handleTcpConnection api stream env ⟨world, []⟩ =
      (tcpResponse api data query question result >>= writeTcpResponse) env ⟨world', []⟩ := by
  obtain ⟨others, hquestions⟩ := hasked.first
  unfold handleTcpConnection
  rw [hread, call_ok_bind, hasked.decoded, Outcome.attempt_ok, call_ok_bind]
  dsimp only
  rw [hasked.isQuery, hquestions]
  exact Run.bind_of_ok (resolver_ok hresolved)

/-- The calls for the additional records send nothing. -/
theorem dnssecAdditionals_sent {wantsDnssec : Bool} {qname : Bytes} {qclass : UInt16}
    {additionals : List ResourceRecord} {st : ServerSt σ}
    (h : dnssecAdditionals api wantsDnssec qname qclass env ⟨world, []⟩ = .ok (additionals, st)) :
    st = ⟨st.resolver, []⟩ := by
  have hsent : st.sent = [] :=
    (quiet_dnssecAdditionals api wantsDnssec qname qclass env ⟨world, []⟩).1 additionals st h
  rw [← hsent]

/-- The datagram is made of the response. -/
theorem Finds.sent (h : Finds api env world data finding) :
    sentBy (handleQuery api data env ⟨world, []⟩) =
      delivered (encodeMessage (finding.response data))
        (datagram finding.result (finding.response data)) := by
  cases h with
  | undecodable hdecode hlen hechoed =>
      rw [handleQuery, hdecode, Outcome.attempt_err, call_ok_bind]
      exact sent_quick (quickErrorResponse_of_questions hlen hechoed 1) _
  | answer hasked hresolved hadditionals =>
      rw [handleQuery_asked hasked hresolved, sendResult, Run.bind_of_ok hadditionals,
        dnssecAdditionals_sent hadditionals]
      exact sent_answer _ _
  | nameError hasked hresolved =>
      rw [handleQuery_asked hasked hresolved]
      exact sent_negative _ _
  | @failed query question e world' hasked hresolved hother =>
      obtain ⟨others, hquestions⟩ := hasked.first
      rw [handleQuery_asked hasked hresolved]
      have hquick := quickErrorResponse_eq hasked.decoded hquestions (errorRcode e)
      cases e with
      | nxDomain soa ad => exact absurd rfl (hother soa ad)
      | _ => exact sent_quick hquick _

/-- And so is the frame. -/
theorem Finds.framed (hread : readTcpRequest stream = .ok data)
    (h : Finds api env world data finding) :
    sentBy (handleTcpConnection api stream env ⟨world, []⟩) =
      delivered (encodeMessage (finding.response data)) tcpFrame := by
  cases h with
  | undecodable hdecode hlen hechoed =>
      rw [handleTcpConnection, hread, call_ok_bind, hdecode, Outcome.attempt_err, call_ok_bind]
      exact framed_quick (quickErrorResponse_of_questions hlen hechoed 1) (fun _ => rfl) rfl
  | answer hasked hresolved hadditionals =>
      rw [handleTcpConnection_asked hread hasked hresolved, tcpResponse, Run.bind_bind,
        Run.bind_of_ok hadditionals, dnssecAdditionals_sent hadditionals]
      exact sent_framed _
  | nameError hasked hresolved =>
      rw [handleTcpConnection_asked hread hasked hresolved]
      exact sent_framed _
  | @failed query question e world' hasked hresolved hother =>
      obtain ⟨others, hquestions⟩ := hasked.first
      rw [handleTcpConnection_asked hread hasked hresolved]
      have hquick := quickErrorResponse_eq hasked.decoded hquestions (errorRcode e)
      cases e with
      | nxDomain soa ad => exact absurd rfl (hother soa ad)
      | _ =>
          unfold tcpResponse
          dsimp only
          rw [Run.bind_bind]
          exact framed_quick hquick (fun _ => rfl) rfl

/-- Where the resolver does not return, nothing is sent. -/
theorem sent_stopped {α : Type} {m : Run ρ σ ε α} {f : α → Serve ρ σ ε Unit}
    (h : ∀ returned, m env world ≠ .ok returned) :
    sentBy ((resolver m >>= f) env ⟨world, []⟩) = [] := by
  rw [Run.bind_apply, resolver, Run.within]
  cases hm : m env world with
  | ok returned => exact absurd hm (h returned)
  | err stop => rfl
  | panic => rfl
  | diverge => rfl

/-- Without a response nothing is sent in answer to a query. -/
theorem sent_nil_of_asked (hasked : Asked data query question)
    (h : ∀ finding, ¬ Finds api env world data finding) :
    sentBy (handleQuery api data env ⟨world, []⟩) = [] := by
  by_cases hreturns : ∃ returned, resolved api env world question = .ok returned
  · obtain ⟨⟨result, world'⟩, hresolved⟩ := hreturns
    rw [handleQuery_asked hasked hresolved]
    cases result with
    | ok answer =>
        obtain ⟨records, adFlag⟩ := answer
        have hquiet := quiet_dnssecAdditionals api (clientWantsDnssec query)
          (labelsToString question.qname) question.qclass env ⟨world', []⟩
        rw [sendResult, Run.bind_apply]
        cases hadditionals : dnssecAdditionals api (clientWantsDnssec query)
            (labelsToString question.qname) question.qclass env ⟨world', []⟩ with
        | ok found => exact absurd (.answer hasked hresolved hadditionals) (h _)
        | err stop => exact hquiet.2 stop.1 stop.2 hadditionals
        | panic => rfl
        | diverge => rfl
    | error e =>
        cases e with
        | nxDomain soa ad => exact absurd (.nameError hasked hresolved) (h _)
        | _ => exact absurd (.failed hasked hresolved (by rintro _ _ ⟨⟩)) (h _)
  · rw [handleQuery_eq hasked]
    exact sent_stopped (not_exists.mp hreturns)

/-- A handler that comes to nothing sends nothing. -/
theorem sent_nil (h : ∀ finding, ¬ Finds api env world data finding) :
    sentBy (handleQuery api data env ⟨world, []⟩) = [] := by
  cases hdecode : decodeMessage data with
  | ok query =>
      cases hqr : query.header.qr with
      | true =>
          rw [handleQuery, hdecode, Outcome.attempt_ok, call_ok_bind]
          dsimp only
          rw [hqr]
          rfl
      | false =>
          cases hquestions : query.questions with
          | nil =>
              rw [handleQuery, hdecode, Outcome.attempt_ok, call_ok_bind]
              dsimp only
              rw [hqr, hquestions]
              rfl
          | cons question others =>
              exact sent_nil_of_asked ⟨hdecode, hqr, others, hquestions⟩ h
  | err e =>
      rw [handleQuery, hdecode, Outcome.attempt_err, call_ok_bind, quickErrorResponse]
      by_cases hshort : data.length < 2
      · rw [if_pos hshort]
        rfl
      rw [if_neg hshort, readU16_of_le (by omega), Outcome.ok_bind]
      cases hechoed : quickErrorQuestions data with
      | ok questions => exact absurd (.undecodable hdecode (by omega) hechoed) (h _)
      | err e => rfl
      | panic => rfl
      | diverge => rfl
  | panic =>
      rw [handleQuery, hdecode]
      rfl
  | diverge =>
      rw [handleQuery, hdecode]
      rfl

theorem sameAnswer_silent {tcp : List Bytes} (h : SameAnswer tcp []) : tcp = [] := by
  cases h
  rfl

theorem framed_nil (hread : readTcpRequest stream = .ok data)
    (h : ∀ finding, ¬ Finds api env world data finding) :
    sentBy (handleTcpConnection api stream env ⟨world, []⟩) = [] := by
  have hagree := connection_agrees api hread env world
  rw [sent_nil h] at hagree
  exact sameAnswer_silent hagree

/-- **What is sent over UDP**: the response of what the handler finds, if it can be
written. -/
theorem forall_sent {P : Bytes → Prop} :
    (∀ d ∈ sentBy (handleQuery api data env ⟨world, []⟩), P d) ↔
      ∀ finding, Finds api env world data finding → finding.Writable →
        P (datagram finding.result (finding.response data) (finding.response data).wire) := by
  constructor
  · intro hsent finding hfinds hwritable
    rw [hfinds.sent, (finding.encodeMessage_response data).mpr ⟨hwritable, rfl⟩] at hsent
    exact hsent _ List.mem_cons_self
  · intro hfindings d hd
    by_cases hfinds : ∃ finding, Finds api env world data finding
    · obtain ⟨finding, hfinds⟩ := hfinds
      rw [hfinds.sent] at hd
      obtain ⟨m, hm, rfl⟩ := mem_delivered.mp hd
      obtain ⟨hwritable, rfl⟩ := (finding.encodeMessage_response data).mp hm
      exact hfindings finding hfinds hwritable
    · rw [sent_nil (not_exists.mp hfinds)] at hd
      cases hd

/-- **What is sent over TCP** in answer to a request that was read. -/
theorem forall_framed {P : Bytes → Prop} (hread : readTcpRequest stream = .ok data) :
    (∀ d ∈ sentBy (handleTcpConnection api stream env ⟨world, []⟩), P d) ↔
      ∀ finding, Finds api env world data finding → finding.Writable →
        P (tcpFrame (finding.response data).wire) := by
  constructor
  · intro hsent finding hfinds hwritable
    rw [hfinds.framed hread, (finding.encodeMessage_response data).mpr ⟨hwritable, rfl⟩] at hsent
    exact hsent _ List.mem_cons_self
  · intro hfindings d hd
    by_cases hfinds : ∃ finding, Finds api env world data finding
    · obtain ⟨finding, hfinds⟩ := hfinds
      rw [hfinds.framed hread] at hd
      obtain ⟨m, hm, rfl⟩ := mem_delivered.mp hd
      obtain ⟨hwritable, rfl⟩ := (finding.encodeMessage_response data).mp hm
      exact hfindings finding hfinds hwritable
    · rw [framed_nil hread (not_exists.mp hfinds)] at hd
      cases hd

end Handlers

end FastDns.Server
