/-
What a client says about the response it wants, and whether the handlers keep to
it.

Two things come with the OPT record of a request: the size of the datagrams the
client takes, and the DO bit. Nothing in the handlers looks at the size, and a
positive answer is cut at a size of their own; `respectsLimit_iff` says for which
responses this keeps to the limit. The DO bit decides about AD in a positive
answer, and has no part in that of a name error (`ad_requested_iff`).
-/

import FastDns.Server.Answered

namespace FastDns.Server

open FastDns.Lib FastDns.Dns

/-! ### What the client says -/

/-- The size of a datagram that the client takes: 512 bytes, or the class of its
OPT record if that is more. -/
def clientLimit (data : Bytes) : Nat :=
  match decodeMessage data with
  | .ok query =>
      match query.additionals.find? fun r => r.rtype = 41 with
      | some opt => max 512 opt.rclass.toNat
      | none => 512
  | _ => 512

/-- The request has an OPT record with the DO bit. -/
def SetsDo (data : Bytes) : Prop :=
  ∃ query, decodeMessage data = .ok query ∧
    ∃ r ∈ query.additionals, r.rtype = 41 ∧ (r.ttl >>> 15) &&& 1 = 1

/-- The AD flag of the resolver. -/
def Finding.authenticated : Finding → Bool
  | .undecodable _ _ => false
  | .answer _ _ _ _ adFlag => adFlag
  | .nameError _ _ _ ad => ad
  | .failed _ _ _ => false

/-- The response can be written in no more than `limit` bytes; or it is a positive
answer that is cut, and then its question can. A response that cannot be written is
not sent. -/
def Finding.KeepsTo (limit : Nat) (finding : Finding) : Prop :=
  finding.Writable → finding.size ≤ limit ∨
    (∃ answer, finding.result = .ok answer) ∧ maxUdpPayload < finding.size ∧
      min maxUdpPayload finding.questionSize ≤ limit

section Options

variable {ρ σ ε : Type} (api : ResolverApi ρ σ ε) (env : ρ) (world : σ) (data : Bytes)

/-- Every datagram is one that the client takes, and TC is set if it is not the
whole response. -/
def RespectsLimit : Prop :=
  ∀ d ∈ sentBy (handleQuery api data env ⟨world, []⟩), d.length ≤ clientLimit data ∧
    ∀ finding, Finds api env world data finding → d ≠ (finding.response data).wire →
      ∃ header, Header.fromBytes d = .ok header ∧ header.tc = true

/-- AD in the message means that the client set DO and the resolver its AD flag. -/
def AdRequested (message : Bytes) : Prop :=
  ∀ header, Header.fromBytes message = .ok header → header.ad = true →
    SetsDo data ∧ ∃ finding, Finds api env world data finding ∧ finding.authenticated = true

/-- An authenticated name error that can be written is for a client that set DO. -/
def DoOnNameError : Prop :=
  ∀ query question soa, Finds api env world data (.nameError query question soa true) →
    (Finding.nameError query question soa true).Writable → SetsDo data

end Options

/-! ### Findings are unique -/

section Unique

variable {ρ σ ε : Type} {api : ResolverApi ρ σ ε} {env : ρ} {world : σ} {data : Bytes}
  {query query' : Message} {question question' : Question} {finding finding' : Finding}

theorem Asked.unique (h : Asked data query question) (h' : Asked data query' question') :
    query' = query ∧ question' = question := by
  obtain rfl := Outcome.ok.inj (h'.decoded.symm.trans h.decoded)
  obtain ⟨others, hfirst⟩ := h.first
  obtain ⟨others', hfirst'⟩ := h'.first
  rw [hfirst] at hfirst'
  cases hfirst'
  exact ⟨rfl, rfl⟩

theorem Asked.setsDo_iff (h : Asked data query question) :
    SetsDo data ↔ clientWantsDnssec query = true := by
  unfold SetsDo clientWantsDnssec
  simp [h.decoded]

/-- What the resolver returns decides what is found. -/
theorem Finds.of_resolved {result : Except DnsError (List ResourceRecord × Bool)} {world' : σ}
    (h : Finds api env world data finding) (hasked : Asked data query question)
    (hresolved : resolved api env world question = .ok (result, world')) :
    match result with
    | .ok (records, adFlag) => ∃ additionals st,
        dnssecAdditionals api (clientWantsDnssec query) (labelsToString question.qname)
          question.qclass env ⟨world', []⟩ = .ok (additionals, st) ∧
        finding = .answer query question records additionals adFlag
    | .error (.nxDomain soa ad) => finding = .nameError query question soa ad
    | .error e => finding = .failed query question e := by
  cases h with
  | undecodable hdecode => cases hasked.decoded.symm.trans hdecode
  | answer hasked' hresolved' hadditionals =>
      obtain ⟨rfl, rfl⟩ := hasked.unique hasked'
      cases hresolved'.symm.trans hresolved
      exact ⟨_, _, hadditionals, rfl⟩
  | nameError hasked' hresolved' =>
      obtain ⟨rfl, rfl⟩ := hasked.unique hasked'
      cases hresolved'.symm.trans hresolved
      rfl
  | @failed _ _ e _ hasked' hresolved' hother =>
      obtain ⟨rfl, rfl⟩ := hasked.unique hasked'
      cases hresolved'.symm.trans hresolved
      cases e with
      | nxDomain soa ad => exact absurd rfl (hother soa ad)
      | _ => rfl

/-- A request and what the resolver returns for it lead to one finding. -/
theorem Finds.unique (h : Finds api env world data finding)
    (h' : Finds api env world data finding') : finding' = finding := by
  cases h with
  | undecodable hdecode _ hechoed =>
      cases h' with
      | undecodable hdecode' _ hechoed' =>
          cases hdecode'.symm.trans hdecode
          cases hechoed'.symm.trans hechoed
          rfl
      | answer hasked => cases hasked.decoded.symm.trans hdecode
      | nameError hasked => cases hasked.decoded.symm.trans hdecode
      | failed hasked => cases hasked.decoded.symm.trans hdecode
  | answer hasked hresolved hadditionals =>
      obtain ⟨_, _, hadditionals', rfl⟩ := h'.of_resolved hasked hresolved
      cases hadditionals'.symm.trans hadditionals
      rfl
  | nameError hasked hresolved => exact h'.of_resolved hasked hresolved
  | @failed _ _ e _ hasked hresolved hother =>
      have hfound := h'.of_resolved hasked hresolved
      cases e with
      | nxDomain soa ad => exact absurd rfl (hother soa ad)
      | _ => exact hfound

end Unique

/-! ### The datagram of a finding -/

section Datagram

variable (finding : Finding) (data : Bytes)

theorem length_truncated :
    (truncated (finding.response data)).wire.length = finding.questionSize := by
  rw [Message.length_wire, Message.wireSize]
  change 12 + totalSize _ (finding.response data).questions + 0 = _
  rw [finding.response_questions]
  rfl

theorem length_response : (finding.response data).wire.length = finding.size := by
  rw [Message.length_wire, finding.wireSize_response]

/-- A datagram keeps to a limit if the response does, or what is left of it. -/
theorem length_datagram {limit : Nat} :
    (datagram finding.result (finding.response data) (finding.response data).wire).length ≤ limit ↔
      finding.size ≤ limit ∨ (∃ answer, finding.result = .ok answer) ∧
        maxUdpPayload < finding.size ∧ min maxUdpPayload finding.questionSize ≤ limit := by
  unfold datagram
  split
  · rename_i answer hresult
    rw [hresult, length_response]
    split
    · rename_i hlarge
      rw [List.length_take, length_truncated]
      constructor
      · intro hcut
        exact .inr ⟨⟨answer, rfl⟩, hlarge, hcut⟩
      · rintro (hwhole | ⟨_, _, hcut⟩)
        · omega
        · exact hcut
    · rename_i hsmall
      rw [length_response]
      constructor
      · exact .inl
      · rintro (hwhole | ⟨_, hlarge, _⟩)
        · exact hwhole
        · exact absurd hlarge hsmall
  · rename_i e hresult
    rw [hresult, length_response]
    simp

/-- The header of the datagram: AD as in the response, and TC if something was left
out. -/
theorem header_datagram :
    ∃ header, Header.fromBytes
        (datagram finding.result (finding.response data) (finding.response data).wire) =
          .ok header ∧ header.ad = (finding.response data).header.ad ∧
      (datagram finding.result (finding.response data) (finding.response data).wire ≠
        (finding.response data).wire → header.tc = true) := by
  have hsmall := finding.response_header data
  obtain ⟨header, hread, hsame⟩ :=
    header_of_response hsmall (wire_standsAt (finding.response data)).1
  unfold datagram
  split
  · split
    · have hcut : (truncated (finding.response data)).header.opcode = 0 ∧
          (truncated (finding.response data)).header.z = 0 ∧
          (truncated (finding.response data)).header.rcode.toNat < 16 := hsmall
      obtain ⟨header, hread, hsame⟩ := header_of_response hcut standsAt_take
      exact ⟨header, hread, hsame.ad, fun _ => hsame.tc⟩
    · exact ⟨header, hread, hsame.ad, fun hne => absurd rfl hne⟩
  · exact ⟨header, hread, hsame.ad, fun hne => absurd rfl hne⟩

end Datagram

/-! ### The size of datagrams -/

section Results

variable {ρ σ ε : Type} (api : ResolverApi ρ σ ε) (env : ρ) (world : σ) (data : Bytes)

/-- **When the limit of the client is kept.** -/
theorem respectsLimit_iff :
    RespectsLimit api env world data ↔
      ∀ finding, Finds api env world data finding → finding.KeepsTo (clientLimit data) := by
  unfold RespectsLimit
  rw [forall_sent]
  constructor
  · intro hlimit finding hfinds hwritable
    exact (length_datagram finding data).mp (hlimit finding hfinds hwritable).1
  · intro hkeeps finding hfinds hwritable
    refine ⟨(length_datagram finding data).mpr (hkeeps finding hfinds hwritable), ?_⟩
    intro finding' hfinds' hpart
    obtain rfl := hfinds.unique hfinds'
    obtain ⟨header, hread, _, htc⟩ := header_datagram finding' data
    exact ⟨header, hread, htc hpart⟩

end Results

/-- A resolver that returns 30 addresses, which make a response of 529 bytes. -/
def manyAddresses : Except DnsError (List ResourceRecord × Bool) :=
  .ok (List.replicate 30 ⟨[1, 97, 0], 1, 1, 60, 4, [10, 0, 0, 1], none⟩, false)

/-- The query is without an OPT record, and the response is sent in full. -/
theorem many_addresses_sent :
    (sentBy (handleQuery (answering manyAddresses) addressQuery.bytes () ⟨(), []⟩)).map
        List.length = [529] ∧
      clientLimit addressQuery.bytes = 512 ∧
      ¬ RespectsLimit (answering manyAddresses) () () addressQuery.bytes := by
  have hsent : (sentBy (handleQuery (answering manyAddresses) addressQuery.bytes ()
      ⟨(), []⟩)).map List.length = [529] := by decide +kernel
  have hlimit : clientLimit addressQuery.bytes = 512 := by decide +kernel
  refine ⟨hsent, hlimit, fun hrespects => ?_⟩
  obtain ⟨d, hd, hlength⟩ := List.mem_map.mp (hsent ▸ List.mem_singleton_self 529)
  have hle := (hrespects d hd).1
  rw [hlength, hlimit] at hle
  exact absurd hle (by decide)

/-! ### AD -/

section Authenticated

variable {ρ σ ε : Type} {api : ResolverApi ρ σ ε} {env : ρ} {world : σ} {data : Bytes}
  {finding : Finding}

/-- AD is in the response to a client that set DO, and in an authenticated name
error. -/
theorem Finds.response_ad (h : Finds api env world data finding) :
    (finding.response data).header.ad = true ↔
      finding.authenticated = true ∧ (SetsDo data ∨ ∃ query question soa,
        finding = .nameError query question soa true) := by
  cases h with
  | undecodable => simp [Finding.response, Finding.authenticated, Header.newResponse]
  | answer hasked hresolved hadditionals =>
      simp [Finding.response, Finding.authenticated, buildResponse, hasked.setsDo_iff, and_comm]
  | @nameError query question soa ad world' hasked hresolved =>
      constructor
      · intro had
        obtain rfl : ad = true := had
        exact ⟨rfl, .inr ⟨query, question, soa, rfl⟩⟩
      · exact And.left
  | failed => simp [Finding.response, Finding.authenticated, Header.newResponse]

/-- A message with the header of the response has AD as it was requested, unless it
is an authenticated name error. -/
theorem Finds.adRequested_iff (h : Finds api env world data finding) {message : Bytes}
    {header : Header} (hread : Header.fromBytes message = .ok header)
    (had : header.ad = (finding.response data).header.ad) :
    AdRequested api env world data message ↔
      ((∃ query question soa, finding = .nameError query question soa true) → SetsDo data) := by
  constructor
  · rintro hrequested ⟨query, question, soa, rfl⟩
    exact (hrequested header hread had).1
  · intro hdo header' hread' had'
    obtain rfl := Outcome.ok.inj (hread'.symm.trans hread)
    rw [had, h.response_ad] at had'
    obtain ⟨hauthenticated, hset | hname⟩ := had'
    · exact ⟨hset, finding, h, hauthenticated⟩
    · exact ⟨hdo hname, finding, h, hauthenticated⟩

/-- The condition, for all findings at once. -/
theorem doOnNameError_iff :
    DoOnNameError api env world data ↔
      ∀ finding, Finds api env world data finding → finding.Writable →
        (∃ query question soa, finding = .nameError query question soa true) → SetsDo data := by
  constructor
  · rintro h finding hfinds hwritable ⟨query, question, soa, rfl⟩
    exact h query question soa hfinds hwritable
  · intro h query question soa hfinds hwritable
    exact h _ hfinds hwritable ⟨query, question, soa, rfl⟩

theorem sent_adRequested_iff :
    (∀ d ∈ sentBy (handleQuery api data env ⟨world, []⟩), AdRequested api env world data d) ↔
      DoOnNameError api env world data := by
  rw [forall_sent, doOnNameError_iff]
  refine forall_congr' fun finding => forall_congr' fun hfinds => forall_congr' fun _ => ?_
  obtain ⟨header, hread, had, _⟩ := header_datagram finding data
  exact hfinds.adRequested_iff hread had

theorem framed_adRequested_iff {stream : Bytes} (hread : readTcpRequest stream = .ok data) :
    (∀ d ∈ sentBy (handleTcpConnection api stream env ⟨world, []⟩),
      AdRequested api env world data (d.drop 2)) ↔ DoOnNameError api env world data := by
  rw [forall_framed hread, doOnNameError_iff]
  refine forall_congr' fun finding => forall_congr' fun hfinds => forall_congr' fun _ => ?_
  obtain ⟨header, hheader, hsame⟩ :=
    header_of_response (finding.response_header data) (wire_standsAt (finding.response data)).1
  exact hfinds.adRequested_iff hheader hsame.ad

/-- **When AD is only reported to clients that asked for it**, over UDP and over
TCP. -/
theorem ad_requested_iff (api : ResolverApi ρ σ ε) (env : ρ) (world : σ) (data stream : Bytes) :
    ((∀ d ∈ sentBy (handleQuery api data env ⟨world, []⟩), AdRequested api env world data d) ↔
      DoOnNameError api env world data) ∧
    ((∀ data, readTcpRequest stream = .ok data →
        ∀ d ∈ sentBy (handleTcpConnection api stream env ⟨world, []⟩),
          AdRequested api env world data (d.drop 2)) ↔
      ∀ data, readTcpRequest stream = .ok data → DoOnNameError api env world data) := by
  refine ⟨sent_adRequested_iff, ?_⟩
  exact forall_congr' fun _ => forall_congr' framed_adRequested_iff

end Authenticated

/-- A name error with the SOA record of a signed zone. -/
def signedNameError : Except DnsError (List ResourceRecord × Bool) :=
  .error (.nxDomain [⟨[0], 6, 1, 60, 22, List.replicate 22 0, none⟩] true)

theorem addressQuery_not_setsDo : ¬ SetsDo addressQuery.bytes := by
  rintro ⟨query, hdecode, r, hr, _⟩
  have haddress : decodeMessage addressQuery.bytes = .ok addressMessage := rfl
  obtain rfl := Outcome.ok.inj (hdecode.symm.trans haddress)
  cases hr

/-- The query is without an OPT record, and both responses have AD. -/
theorem signed_name_error_sent :
    (∃ d ∈ sentBy (handleQuery (answering signedNameError) addressQuery.bytes () ⟨(), []⟩),
      ¬ AdRequested (answering signedNameError) () () addressQuery.bytes d) ∧
    ∃ d ∈ sentBy (handleTcpConnection (answering signedNameError) (tcpFrame addressQuery.bytes) ()
        ⟨(), []⟩),
      ¬ AdRequested (answering signedNameError) () () addressQuery.bytes (d.drop 2) := by
  have hunrequested : ∀ message, (Header.fromBytes message).toOption.map Header.ad = some true →
      ¬ AdRequested (answering signedNameError) () () addressQuery.bytes message := by
    intro message had hrequested
    obtain ⟨header, hread, had⟩ := Option.map_eq_some_iff.mp had
    exact addressQuery_not_setsDo (hrequested header (Outcome.toOption_eq_some.mp hread) had).1
  have hudp : (sentBy (handleQuery (answering signedNameError) addressQuery.bytes ()
      ⟨(), []⟩)).map (fun d => (Header.fromBytes d).toOption.map Header.ad) = [some true] := by
    decide +kernel
  have htcp : (sentBy (handleTcpConnection (answering signedNameError)
      (tcpFrame addressQuery.bytes) () ⟨(), []⟩)).map
        (fun d => (Header.fromBytes (d.drop 2)).toOption.map Header.ad) = [some true] := by
    decide +kernel
  obtain ⟨d, hd, had⟩ := List.mem_map.mp (hudp ▸ List.mem_singleton_self (some true))
  obtain ⟨frame, hframe, hframed⟩ := List.mem_map.mp (htcp ▸ List.mem_singleton_self (some true))
  exact ⟨⟨d, hd, hunrequested d had⟩, frame, hframe, hunrequested _ hframed⟩

end FastDns.Server
