/-
The servers with the resolver behind them.

`resolverApi` puts the model of the resolver in the place of the parameter of the
handlers. What is known of the shared caches is then known of what is sent: over
UDP and over TCP, a client gets the same bytes whatever the servers say that were
not learned, and every record in them was given by a learned server, but for the
OPT record of the handler's own (`handleQuery_isolated`,
`handleTcpConnection_isolated`).
-/

import FastDns.Resolver.Influence
import FastDns.Server.Agreement

namespace FastDns.Server

open FastDns.Lib FastDns.Dns FastDns.Resolver

/-- `RecursiveResolver`, as the handlers use it. -/
def resolverApi (fuel : Nat) (cfg : Config) : ResolverApi Env St Stop where
  resolveWithAd := fun name rtype rclass =>
    attempt (resolveWithAd (resolveRecursive fuel) cfg name rtype rclass)
  resolveDnssec := resolveDnssec

/-! ### Responses -/

/-- The record was given, or is the OPT record of the handler. -/
def FromWorld (W : World) (r : ResourceRecord) : Prop := r = dnssecOptRecord ∨ W.Gives r

/-- What is sent is a message with such records, whole or cut to a datagram. -/
def Sendable (W : World) (bytes : Bytes) : Prop :=
  ∃ response m, encodeMessage response = .ok m ∧ (∀ r ∈ messageRecords response, FromWorld W r) ∧
    (bytes = m ∨ bytes = m.take maxUdpPayload ∨ bytes = tcpFrame m)

/-- The caches stem from told calls, and everything sent so far is sendable. -/
def Serving (W : World) (c₀ : Shared) (st : ServerSt St) : Prop :=
  W.Reaches c₀ st.resolver.shared ∧ ∀ bytes ∈ st.sent, Sendable W bytes

/-- The handler runs alike in both environments and stays `Serving`. -/
abbrev Serves (W : World) (c₀ : Shared) (env env' : Env) {α : Type} (m : Serve Env St Stop α)
    (Q : α → Prop) : Prop :=
  Run.Alike env env' (Serving W c₀) m Q fun _ => True

section Handler

variable {W : World} {c₀ : Shared} {env env' : Env} {α : Type}

/-- A call of the resolver sends nothing itself. -/
theorem serves_resolver {m : Resolve α} {Q : α → Prop} (hm : Isolated W c₀ env env' m Q) :
    Serves W c₀ env env' (resolver m) Q :=
  Run.alike_within hm (fun _ ht => ht.1) (fun _ _ hs ht => ⟨hs, ht.2⟩) fun _ _ => trivial

/-- Nor does a function without state. -/
theorem serves_call (x : DnsResult α) : Serves W c₀ env env' (call x) fun a => x = .ok a :=
  Run.alike_lift fun _ _ => trivial

/-- What is sent is the same in both environments, and may be sent. -/
theorem serves_send {bytes : Bytes} (h : Sendable W bytes) :
    Serves W c₀ env env' (send bytes) fun _ => True := by
  refine Run.alike_modify fun st hst => ⟨hst.1, fun sent hsent => ?_⟩
  rcases List.mem_append.mp hsent with hold | hnew
  · exact hst.2 sent hold
  · rw [List.mem_singleton.mp hnew]
    exact h

/-- A handler that fails has sent what it has sent. -/
theorem serves_fail (e : DnsError) {Q : α → Prop} :
    Serves W c₀ env env' (fail e : Serve Env St Stop α) Q :=
  Run.alike_throw trivial

/-! A quick error response has no records. -/

/-- A refusal has no records. -/
theorem sendable_of_quick {data response : Bytes} {rcode : UInt8}
    (h : quickErrorResponse data rcode = .ok (some response)) :
    Sendable W response ∧ Sendable W (tcpFrame response) := by
  unfold quickErrorResponse at h
  split at h
  · cases h
  · obtain ⟨id, _, h⟩ := Outcome.bind_eq_ok.mp h
    obtain ⟨questions, _, h⟩ := Outcome.bind_eq_ok.mp h
    obtain ⟨encoded, hencoded, h⟩ := Outcome.bind_eq_ok.mp h
    cases encoded with
    | error e => cases h
    | ok m =>
        cases h
        have hm := Outcome.attempt_eq_ok.mp hencoded
        have hnone : ∀ r ∈ messageRecords ⟨Header.newResponse id rcode, questions, [], [], []⟩,
            FromWorld W r := fun r hr => absurd hr List.not_mem_nil
        exact ⟨⟨_, _, hm, hnone, .inl rfl⟩, _, _, hm, hnone, .inr (.inr rfl)⟩

theorem serves_sendSome {response : Option Bytes}
    (h : ∀ bytes, response = some bytes → Sendable W bytes) :
    Serves W c₀ env env' (sendSome response) fun _ => True := by
  cases response with
  | none => exact Run.alike_pure trivial
  | some bytes => exact serves_send (h bytes rfl)

theorem serves_writeTcpResponse {m : Bytes} (h : Sendable W (tcpFrame m)) :
    Serves W c₀ env env' (writeTcpResponse m) fun _ => True := by
  unfold writeTcpResponse
  split
  · exact serves_fail _
  · exact serves_send h

/-- The error response of the TCP handler, where it is an error that there is none. -/
theorem serves_quickFrame {data : Bytes} {rcode : UInt8} {e : DnsError}
    {f : Option Bytes → Serve Env St Stop Bytes} (hsome : ∀ m, f (some m) = pure m)
    (hnone : f none = fail e) :
    Serves W c₀ env env' (call (quickErrorResponse data rcode) >>= f)
      fun m => Sendable W (tcpFrame m) := by
  refine Run.alike_bind (serves_call _) fun response hresponse => ?_
  cases response with
  | some m =>
      rw [hsome]
      exact Run.alike_pure (sendable_of_quick hresponse).2
  | none =>
      rw [hnone]
      exact serves_fail e

/-- A response whose records may be sent may be sent, cut down or whole. -/
theorem serves_sendAnswer {response : Message}
    (hrecords : ∀ r ∈ messageRecords response, FromWorld W r) :
    Serves W c₀ env env' (sendAnswer response) fun _ => True := by
  refine Run.alike_bind (serves_call _) fun m hm => ?_
  split
  · refine Run.alike_bind (serves_call _) fun t ht => serves_send ?_
    exact ⟨_, _, ht, fun r hr => absurd hr List.not_mem_nil, .inr (.inl rfl)⟩
  · exact serves_send ⟨_, _, hm, hrecords, .inl rfl⟩

/-! The responses of the handlers. -/

/-- The handler adds nothing to the records of the resolver but the OPT record. -/
theorem fromWorld_buildResponse {reqHeader : Header} {question : Question}
    {records additionals : List ResourceRecord} {ad : Bool} (hrecords : ∀ r ∈ records, W.Gives r)
    (hadditionals : ∀ r ∈ additionals, FromWorld W r) :
    ∀ r ∈ messageRecords (buildResponse reqHeader question records additionals ad),
      FromWorld W r := by
  intro r hr
  simp only [messageRecords, buildResponse, List.append_nil, List.mem_append] at hr
  rcases hr with (hr | hr) | hr
  · exact .inr (hrecords r (List.mem_of_mem_filter hr))
  · exact .inr (hrecords r (List.mem_of_mem_filter hr))
  · exact hadditionals r hr

/-- A denial has the SOA records of the resolver. -/
theorem fromWorld_nxdomainResponse {request : Message} {question : Question}
    {soa : List ResourceRecord} {ad : Bool} (hsoa : ∀ r ∈ soa, W.Gives r) :
    ∀ r ∈ messageRecords (nxdomainResponse request question soa ad), FromWorld W r := by
  intro r hr
  simp only [messageRecords, nxdomainResponse, List.nil_append, List.mem_append] at hr
  rcases hr with hr | hr
  · exact .inr (hsoa r hr)
  · split at hr
    · exact .inl (List.mem_singleton.mp hr)
    · cases hr

variable (h : Shielded W c₀ env env') (fuel : Nat) (cfg : Config)

include h

/-- The resolution a handler asks for is isolated. -/
theorem serves_resolveWithAd (name : Bytes) (rtype rclass : UInt16) :
    Serves W c₀ env env' (resolver ((resolverApi fuel cfg).resolveWithAd name rtype rclass))
      (W.Tried fun result => ∀ r ∈ result.1, W.Gives r) :=
  serves_resolver (isolated_attempt (isolated_resolution h fuel cfg name rtype rclass))

/-- So are the keys it adds for a client that wants them. -/
theorem serves_dnssecAdditionals (wantsDnssec : Bool) (qname : Bytes) (qclass : UInt16) :
    Serves W c₀ env env' (dnssecAdditionals (resolverApi fuel cfg) wantsDnssec qname qclass)
      fun additionals => ∀ r ∈ additionals, FromWorld W r := by
  unfold dnssecAdditionals
  split
  · refine Run.alike_bind (serves_resolveWithAd h fuel cfg _ _ _) fun dnskeys hkeys =>
      Run.alike_bind (serves_resolver (isolated_resolveDnssec h qname 46 qclass))
        fun rrsigs hsigs => Run.alike_pure fun r hr => ?_
    rcases List.mem_append.mp hr with hr | hr
    · rcases List.mem_append.mp hr with hr | hr
      · cases dnskeys with
        | ok found => exact .inr (hkeys r hr)
        | error e => cases hr
      · exact .inr (hsigs r hr)
    · exact .inl (List.mem_singleton.mp hr)
  · exact Run.alike_pure fun r hr => absurd hr List.not_mem_nil

/-- The three ends of a UDP request: an answer, a denial, an error. -/
theorem serves_sendResult (data : Bytes) (request : Message) (question : Question)
    {result : Except DnsError (List ResourceRecord × Bool)}
    (hresult : W.Tried (fun result => ∀ r ∈ result.1, W.Gives r) result) :
    Serves W c₀ env env' (sendResult (resolverApi fuel cfg) data request question result)
      fun _ => True := by
  have hquick : ∀ e, Serves W c₀ env env' (do
      let response ← call (quickErrorResponse data (errorRcode e))
      sendSome response) fun _ => True := fun e =>
    Run.alike_bind (serves_call _) fun response hresponse => serves_sendSome fun bytes hbytes =>
      (sendable_of_quick (hbytes ▸ hresponse)).1
  cases result with
  | ok answer =>
      exact Run.alike_bind (serves_dnssecAdditionals h fuel cfg _ _ _) fun additionals hadd =>
        serves_sendAnswer (fromWorld_buildResponse hresult hadd)
  | error e =>
      cases e with
      | nxDomain soa ad =>
          refine Run.alike_bind (serves_call _) fun encoded hencoded =>
            serves_sendSome fun bytes hbytes => ?_
          cases encoded with
          | error e => cases hbytes
          | ok m =>
              cases hbytes
              exact ⟨_, _, Outcome.attempt_eq_ok.mp hencoded,
                fromWorld_nxdomainResponse (hresult soa ad rfl), .inl rfl⟩
      | malformed _ => exact hquick _
      | transport _ => exact hquick _
      | bufferTooSmall _ _ => exact hquick _
      | unknownRecordType _ => exact hquick _
      | invalidPointer _ => exact hquick _
      | invalidLabel _ => exact hquick _
      | unexpectedEof => exact hquick _
      | io _ => exact hquick _

/-- **The UDP handler** is isolated. -/
theorem serves_handleQuery (data : Bytes) :
    Serves W c₀ env env' (handleQuery (resolverApi fuel cfg) data) fun _ => True := by
  refine Run.alike_bind (serves_call _) fun decoded _ => ?_
  cases decoded with
  | error e =>
      exact Run.alike_bind (serves_call _) fun response hresponse =>
        serves_sendSome fun bytes hbytes => (sendable_of_quick (hbytes ▸ hresponse)).1
  | ok request =>
      dsimp only
      split
      · exact Run.alike_bind (serves_resolveWithAd h fuel cfg _ _ _) fun result hresult =>
          serves_sendResult h fuel cfg data request _ hresult
      · exact Run.alike_pure trivial

/-- The same ends over TCP. -/
theorem serves_tcpResponse (data : Bytes) (request : Message) (question : Question)
    {result : Except DnsError (List ResourceRecord × Bool)}
    (hresult : W.Tried (fun result => ∀ r ∈ result.1, W.Gives r) result) :
    Serves W c₀ env env' (tcpResponse (resolverApi fuel cfg) data request question result)
      fun m => Sendable W (tcpFrame m) := by
  cases result with
  | ok answer =>
      exact Run.alike_bind (serves_dnssecAdditionals h fuel cfg _ _ _) fun additionals hadd =>
        (serves_call _).weaken fun m hm =>
          ⟨_, _, hm, fromWorld_buildResponse hresult hadd, .inr (.inr rfl)⟩
  | error e =>
      cases e with
      | nxDomain soa ad =>
          exact (serves_call _).weaken fun m hm =>
            ⟨_, _, hm, fromWorld_nxdomainResponse (hresult soa ad rfl), .inr (.inr rfl)⟩
      | malformed _ => exact serves_quickFrame (fun _ => rfl) rfl
      | transport _ => exact serves_quickFrame (fun _ => rfl) rfl
      | bufferTooSmall _ _ => exact serves_quickFrame (fun _ => rfl) rfl
      | unknownRecordType _ => exact serves_quickFrame (fun _ => rfl) rfl
      | invalidPointer _ => exact serves_quickFrame (fun _ => rfl) rfl
      | invalidLabel _ => exact serves_quickFrame (fun _ => rfl) rfl
      | unexpectedEof => exact serves_quickFrame (fun _ => rfl) rfl
      | io _ => exact serves_quickFrame (fun _ => rfl) rfl

/-- **The TCP handler** is isolated. -/
theorem serves_handleTcpConnection (stream : Bytes) :
    Serves W c₀ env env' (handleTcpConnection (resolverApi fuel cfg) stream) fun _ => True := by
  refine Run.alike_bind (serves_call _) fun data _ => Run.alike_bind (serves_call _)
    fun decoded _ => ?_
  cases decoded with
  | error e =>
      refine Run.alike_bind (serves_call _) fun response hresponse => ?_
      cases response with
      | some m => exact serves_writeTcpResponse (sendable_of_quick hresponse).2
      | none => exact Run.alike_pure trivial
  | ok request =>
      dsimp only
      split
      · exact Run.alike_bind (serves_resolveWithAd h fuel cfg _ _ _) fun result hresult =>
          Run.alike_bind (serves_tcpResponse h fuel cfg data request _ hresult) fun m hm =>
            serves_writeTcpResponse hm
      · exact Run.alike_pure trivial

end Handler

/-! ### What a client gets -/

/-- **A client gets the same bytes** over UDP, and over TCP, whatever servers say that
were not learned. -/
theorem servers_isolated {W : World} {env env' : Env} (hin : env.Within W)
    (hsame : W.Indistinct env env') (fuel : Nat) (cfg : Config) (st : ServerSt St)
    (hsound : W.Sound st.resolver.shared) (request : Bytes) :
    sentBy (handleQuery (resolverApi fuel cfg) request env ⟨st.resolver, []⟩) =
        sentBy (handleQuery (resolverApi fuel cfg) request env' ⟨st.resolver, []⟩) ∧
      sentBy (handleTcpConnection (resolverApi fuel cfg) request env ⟨st.resolver, []⟩) =
        sentBy (handleTcpConnection (resolverApi fuel cfg) request env' ⟨st.resolver, []⟩) := by
  have hshielded : Shielded W st.resolver.shared env env' := ⟨hsound, hin, hsame⟩
  have hstart : Serving W st.resolver.shared ⟨st.resolver, []⟩ :=
    ⟨.refl, fun bytes hbytes => absurd hbytes List.not_mem_nil⟩
  rw [(serves_handleQuery hshielded fuel cfg request).same _ hstart,
    (serves_handleTcpConnection hshielded fuel cfg request).same _ hstart]
  exact ⟨rfl, rfl⟩

/-- A query for the address of `a.test`. -/
def sampleQuery : Bytes :=
  [0x12, 0x34, 0x01, 0x00, 0, 1, 0, 0, 0, 0, 0, 0, 1, 0x61, 4, 0x74, 0x65, 0x73, 0x74, 0, 0, 1, 0, 1]

theorem servers_isolated_stranger :
    sentBy (handleQuery (resolverApi 1 ⟨false, false⟩) sampleQuery honestEnv
        ⟨St.initial 10, []⟩) =
      sentBy (handleQuery (resolverApi 1 ⟨false, false⟩) sampleQuery strangerEnv
        ⟨St.initial 10, []⟩) ∧
    sentBy (handleTcpConnection (resolverApi 1 ⟨false, false⟩) sampleQuery honestEnv
        ⟨St.initial 10, []⟩) =
      sentBy (handleTcpConnection (resolverApi 1 ⟨false, false⟩) sampleQuery strangerEnv
        ⟨St.initial 10, []⟩) :=
  servers_isolated honestEnv_within strangerEnv_indistinct 1 ⟨false, false⟩ ⟨St.initial 10, []⟩
    (sound_new 10) sampleQuery

/-! ### The life of a server -/

/-- The state after a handler. One that panics or does not return has sent nothing;
what it did to the caches before counts as done by another task, and it is told as
theirs is (`Reaches.told`). -/
def stateAfter (st : ServerSt St) : Outcome ((DnsError ⊕ Stop) × ServerSt St)
    (Unit × ServerSt St) → ServerSt St
  | .ok (_, st') => st'
  | .err (_, st') => st'
  | .panic => st
  | .diverge => st

/-- A server from its start on: requests come in over either transport, each in an
environment of its own, and in between other tasks use the caches. -/
inductive Life (W : World) (cacheSize : Nat) : ServerSt St → Prop where
  | start : Life W cacheSize ⟨St.initial cacheSize, []⟩
  | udp {st : ServerSt St} (env : Env) (fuel : Nat) (cfg : Config) (data : Bytes) :
      Life W cacheSize st → env.Within W →
      Life W cacheSize (stateAfter st (handleQuery (resolverApi fuel cfg) data env st))
  | tcp {st : ServerSt St} (env : Env) (fuel : Nat) (cfg : Config) (stream : Bytes) :
      Life W cacheSize st → env.Within W →
      Life W cacheSize (stateAfter st (handleTcpConnection (resolverApi fuel cfg) stream env st))
  | other {st : ServerSt St} (op : SharedOp) : Life W cacheSize st → W.Told op →
      Life W cacheSize { st with
        resolver := { st.resolver with shared := st.resolver.shared.apply op } }

/-- Whatever becomes of a handler, the server goes on with sound caches. -/
theorem serving_after {W : World} {c₀ : Shared} {env env' : Env} {m : Serve Env St Stop Unit}
    (hm : Serves W c₀ env env' m fun _ => True) {st : ServerSt St} (hst : Serving W c₀ st) :
    Serving W c₀ (stateAfter st (m env st)) := by
  have hends := hm.ends st hst
  cases hrun : m env st with
  | ok result =>
      rw [hrun] at hends
      exact hends.1
  | err stop =>
      rw [hrun] at hends
      exact hends.1
  | panic => exact hst
  | diverge => exact hst

/-- **In the whole life of a server**, every record it sends to any client was given
by a learned server, or is the OPT record of the handler; and its caches hold
nothing else. -/
theorem life_serving {W : World} {cacheSize : Nat} {st : ServerSt St}
    (hlife : Life W cacheSize st) :
    W.Sound st.resolver.shared ∧ ∀ bytes ∈ st.sent, Sendable W bytes := by
  have hserving : Serving W (Shared.new cacheSize) st := by
    induction hlife with
    | start => exact ⟨.refl, fun bytes hbytes => absurd hbytes List.not_mem_nil⟩
    | udp env fuel cfg data _ hin ih =>
        exact serving_after (serves_handleQuery (hin.shielded (sound_new _)) fuel cfg data) ih
    | tcp env fuel cfg stream _ hin ih =>
        exact serving_after (serves_handleTcpConnection (hin.shielded (sound_new _)) fuel cfg
          stream) ih
    | other op _ htold ih => exact ⟨ih.1.step op htold, ih.2⟩
  exact ⟨hserving.1.sound (sound_new _), hserving.2⟩

/-- A new server that has answered one query. -/
theorem life_serving_sample :
    honestWorld.Sound (stateAfter ⟨St.initial 10, []⟩ (handleQuery (resolverApi 1 ⟨false, false⟩)
      sampleQuery honestEnv ⟨St.initial 10, []⟩)).resolver.shared ∧
    ∀ bytes ∈ (stateAfter ⟨St.initial 10, []⟩ (handleQuery (resolverApi 1 ⟨false, false⟩)
      sampleQuery honestEnv ⟨St.initial 10, []⟩)).sent, Sendable honestWorld bytes :=
  life_serving (.udp honestEnv 1 ⟨false, false⟩ sampleQuery .start honestEnv_within)

end FastDns.Server
