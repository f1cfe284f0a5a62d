/-
The two servers, side by side.

`handle_query` and `handle_tcp_connection` are written out twice in the source,
with the same calls in the same order and their own ways to deliver the result.
`SameAnswer` says how what the one writes corresponds to what the other sends.

**`servers_agree`**: from the same state of the resolver, the two handlers give
the same answer to the same request, or neither answers it.
-/

import FastDns.Dns.RoundTrip
import FastDns.Server.Tcp

namespace FastDns.Server

open FastDns.Lib FastDns.Dns

/-! ### What a handler has sent -/

/-- What has been sent at the end of a handler. Each send is the last step of its
branch, so a handler that panics or does not return has sent nothing. -/
def sentBy {δ σ : Type} : Outcome (δ × ServerSt σ) (Unit × ServerSt σ) → List Bytes
  | .ok (_, st) => st.sent
  | .err (_, st) => st.sent
  | .panic => []
  | .diverge => []

/-- `SameAnswer tcp udp`: nothing on either side, or the message in the frame is
the datagram. A positive answer that is too large for a datagram is replaced by
its question with TC set. -/
inductive SameAnswer : List Bytes → List Bytes → Prop where
  | silent : SameAnswer [] []
  | positive {response : Message} {m : Bytes} : response.header.rcode = 0 →
      encodeMessage response = .ok m → m.length ≤ maxUdpPayload → SameAnswer [tcpFrame m] [m]
  | cut {response : Message} {m t : Bytes} : response.header.rcode = 0 →
      encodeMessage response = .ok m → maxUdpPayload < m.length →
      encodeMessage (truncated response) = .ok t →
      SameAnswer [tcpFrame m] [t.take maxUdpPayload]
  | negative {response : Message} {m : Bytes} : response.header.rcode ≠ 0 →
      encodeMessage response = .ok m → SameAnswer [tcpFrame m] [m]

/-- A request that a frame has room for. -/
structure Request where
  bytes : Bytes
  framed : bytes.length ≤ maxTcpMessage

/-- The request is read from its frame, unless it is empty. -/
theorem readTcpRequest_frame (request : Request) (rest : Bytes) (hne : request.bytes ≠ []) :
    readTcpRequest (tcpFrame request.bytes ++ rest) = .ok request.bytes := by
  have hframed := request.framed
  have hpos := List.length_pos_iff.mpr hne
  have hframe : StandsAt (tcpFrame request.bytes ++ rest) 0 (tcpFrame request.bytes) :=
    List.prefix_append _ _
  obtain ⟨hcount, hbytes⟩ := standsAt_append.mp hframe
  rw [length_u16ToBeBytes, Nat.zero_add] at hbytes
  have hlen : (u16At (tcpFrame request.bytes ++ rest) 0).toNat = request.bytes.length := by
    rw [hcount.u16At, UInt16.toNat_ofNat']
    unfold maxTcpMessage at hframed
    omega
  have hend := hbytes.le hne
  unfold readTcpRequest
  rw [if_neg (by omega)]
  dsimp only
  rw [hlen, if_neg (by omega), if_neg (by omega), hbytes.take_drop]

theorem readTcpRequest_empty (rest : Bytes) :
    readTcpRequest (tcpFrame [] ++ rest) = .err (.malformed "Invalid TCP message length") := by
  have hlen : (tcpFrame [] ++ rest).length = 2 + rest.length := by
    rw [List.length_append]
    rfl
  have hframe : StandsAt (tcpFrame [] ++ rest) 0 (tcpFrame []) := List.prefix_append _ _
  have hzero := (standsAt_append.mp hframe).1.u16At
  unfold readTcpRequest
  rw [if_neg (by omega), hzero]
  exact if_pos (.inr rfl)

/-- Two handlers that send nothing agree. -/
theorem sameAnswer_nil {sent : List Bytes} (h : sent = []) : SameAnswer sent sent := by
  rw [h]
  exact .silent

section Rules

variable {ρ σ ε : Type}

/-- Started with nothing sent, the first program writes what the second one sends. -/
def Agrees (p q : Serve ρ σ ε Unit) : Prop :=
  Run.Related (fun st => st.sent = []) (fun o o' => SameAnswer (sentBy o) (sentBy o')) p q

/-- A program that sends nothing. -/
def Quiet {α : Type} (m : Serve ρ σ ε α) : Prop := Run.Keeps (fun st st' => st'.sent = st.sent) m

/-- Programs that send nothing are closed under all combinations. -/
theorem quiet_closed :
    Run.Closed fun {α} (m : Serve ρ σ ε α) => Quiet m :=
  Run.keeps_closed (fun _ => rfl) fun h h' => h'.trans h

theorem quiet_resolver {α : Type} (m : Run ρ σ ε α) : Quiet (resolver m) := by
  have hsame : ∀ (s : σ) (st : ServerSt σ), ServerSt.sent { st with resolver := s } = st.sent :=
    fun _ _ => rfl
  exact Run.keeps_within hsame m

/-- Two handlers that do the same first agree if they agree behind that. -/
theorem agrees_bind {α : Type} {m : Serve ρ σ ε α} {f g : α → Serve ρ σ ε Unit} (hm : Quiet m)
    (h : ∀ a, Agrees (f a) (g a)) : Agrees (m >>= f) (m >>= g) := by
  refine Run.related_bind hm (fun _ _ hs hR => hR.trans hs) (fun _ st hst => ?_) .silent .silent h
  exact sameAnswer_nil hst

theorem call_ok_bind {α β : Type} (a : α) (f : α → Serve ρ σ ε β) : call (.ok a) >>= f = f a := rfl

/-- A call without state that both handlers make. -/
theorem agrees_call {α : Type} {x : DnsResult α} {f g : α → Serve ρ σ ε Unit}
    (h : ∀ a, x = .ok a → Agrees (f a) (g a)) : Agrees (call x >>= f) (call x >>= g) := by
  cases x with
  | ok a => exact h a rfl
  | err e => exact fun _ _ hst => sameAnswer_nil hst
  | panic => exact fun _ _ _ => .silent
  | diverge => exact fun _ _ _ => .silent

theorem agrees_pure : Agrees (pure () : Serve ρ σ ε Unit) (pure ()) :=
  fun _ _ hst => sameAnswer_nil hst

/-- An error that only the first handler has. -/
theorem agrees_fail {e : DnsError} : Agrees (fail e : Serve ρ σ ε Unit) (pure ()) :=
  fun _ _ hst => sameAnswer_nil hst

/-- An encoded message always has room in a frame. -/
theorem writeTcpResponse_encoded {response : Message} {m : Bytes}
    (hm : encodeMessage response = .ok m) :
    (writeTcpResponse m : Serve ρ σ ε Unit) = send (tcpFrame m) := by
  obtain ⟨hsize, _, rfl⟩ := encodeMessage_eq_ok.mp hm
  unfold maxDnsMessageSize at hsize
  rw [writeTcpResponse, if_neg (by unfold maxTcpMessage; omega)]

/-- The two deliveries of an encoded message. -/
theorem agrees_deliver {response : Message} {m d : Bytes} (hm : encodeMessage response = .ok m)
    (h : SameAnswer [tcpFrame m] [d]) :
    Agrees (writeTcpResponse m : Serve ρ σ ε Unit) (send d) := by
  intro env st hst
  rw [writeTcpResponse_encoded hm]
  change SameAnswer (st.sent ++ [tcpFrame m]) (st.sent ++ [d])
  rw [hst]
  exact h

end Rules

/-! ### The branches -/

/-- A quick error response is the encoding of a message with that code. -/
theorem quickErrorResponse_eq_some {data m : Bytes} {rcode : UInt8}
    (h : quickErrorResponse data rcode = .ok (some m)) :
    ∃ id questions, encodeMessage ⟨Header.newResponse id rcode, questions, [], [], []⟩ = .ok m := by
  unfold quickErrorResponse at h
  split at h
  · cases h
  obtain ⟨id, _, h⟩ := Outcome.bind_eq_ok.mp h
  obtain ⟨questions, _, h⟩ := Outcome.bind_eq_ok.mp h
  refine ⟨id, questions, ?_⟩
  dsimp only at h
  cases hm : encodeMessage ⟨Header.newResponse id rcode, questions, [], [], []⟩ with
  | ok bytes =>
      rw [hm] at h
      cases h
      rfl
  | err e =>
      rw [hm] at h
      cases h
  | panic =>
      rw [hm] at h
      cases h
  | diverge =>
      rw [hm] at h
      cases h

theorem errorRcode_ne_zero (e : DnsError) : errorRcode e ≠ 0 := by
  unfold errorRcode
  split <;> decide

/-- Whatever was written in full can be written without its records. -/
theorem encodeMessage_truncated {response : Message} {m : Bytes}
    (h : encodeMessage response = .ok m) : ∃ t, encodeMessage (truncated response) = .ok t := by
  obtain ⟨hsize, _, rfl⟩ := encodeMessage_eq_ok.mp h
  refine ⟨_, encodeMessage_eq_ok.mpr ⟨?_, fun r hr => absurd hr List.not_mem_nil, rfl⟩⟩
  rw [Message.length_wire] at hsize ⊢
  unfold Message.wireSize at hsize ⊢
  exact Nat.le_trans (Nat.add_le_add_left (Nat.zero_le _) _) hsize

section Handlers

variable {ρ σ ε : Type} {data : Bytes}

/-- Both handlers send a quick error response, or have none. -/
theorem agrees_quick {rcode : UInt8} {f : Option Bytes → Serve ρ σ ε Unit} (hrcode : rcode ≠ 0)
    (hsome : ∀ m, f (some m) = writeTcpResponse m) (hnone : Agrees (f none) (pure ())) :
    Agrees (call (quickErrorResponse data rcode) >>= f)
      (call (quickErrorResponse data rcode) >>= sendSome) := by
  refine agrees_call fun response hresponse => ?_
  cases response with
  | none => exact hnone
  | some m =>
      obtain ⟨id, questions, hm⟩ := quickErrorResponse_eq_some hresponse
      rw [hsome]
      exact agrees_deliver hm (.negative hrcode hm)

/-- Where a response cannot be written, the TCP handler returns the error and the
UDP handler drops it. -/
theorem agrees_negative {response : Message} (hrcode : response.header.rcode ≠ 0) :
    Agrees (call (encodeMessage response) >>= writeTcpResponse : Serve ρ σ ε Unit)
      (do
        let encoded ← call (encodeMessage response).attempt
        sendSome encoded.toOption) := by
  cases hm : encodeMessage response with
  | ok m => exact agrees_deliver hm (.negative hrcode hm)
  | err e => exact agrees_fail
  | panic => exact fun _ _ _ => .silent
  | diverge => exact fun _ _ _ => .silent

/-- The transports differ in what they do with an answer that is too long. -/
theorem agrees_answer {response : Message} (hrcode : response.header.rcode = 0) :
    Agrees (call (encodeMessage response) >>= writeTcpResponse : Serve ρ σ ε Unit)
      (sendAnswer response) := by
  refine agrees_call fun m hm => ?_
  split
  · rename_i hlarge
    obtain ⟨t, ht⟩ := encodeMessage_truncated hm
    rw [ht, call_ok_bind]
    exact agrees_deliver hm (.cut hrcode hm hlarge ht)
  · rename_i hsmall
    exact agrees_deliver hm (.positive hrcode hm (Nat.not_lt.mp hsmall))

variable (api : ResolverApi ρ σ ε)

theorem quiet_dnssecAdditionals (wantsDnssec : Bool) (qname : Bytes) (qclass : UInt16) :
    Quiet (dnssecAdditionals api wantsDnssec qname qclass) := by
  unfold dnssecAdditionals
  split
  · refine quiet_closed.bind (quiet_resolver _) fun _ => ?_
    exact quiet_closed.bind (quiet_resolver _) fun _ => quiet_closed.pure _
  · exact quiet_closed.pure _

/-- The handlers agree on every result of the resolver. -/
theorem agrees_result (request : Message) (question : Question)
    (result : Except DnsError (List ResourceRecord × Bool)) :
    Agrees (tcpResponse api data request question result >>= writeTcpResponse)
      (sendResult api data request question result) := by
  cases result with
  | ok answer =>
      unfold tcpResponse sendResult
      rw [Run.bind_bind]
      exact agrees_bind (quiet_dnssecAdditionals api _ _ _) fun _ => agrees_answer rfl
  | error e =>
      cases e with
      | nxDomain soa ad =>
          have hrcode : (nxdomainResponse request question soa ad).header.rcode = 3 := rfl
          exact agrees_negative (by rw [hrcode]; decide)
      | _ =>
          unfold tcpResponse sendResult
          rw [Run.bind_bind]
          exact agrees_quick (errorRcode_ne_zero _) (fun _ => rfl) agrees_fail

/-- The handlers agree on a request that the TCP handler has read. -/
theorem connection_agrees {stream : Bytes} (hread : readTcpRequest stream = .ok data) (env : ρ)
    (world : σ) :
    SameAnswer (sentBy (handleTcpConnection api stream env ⟨world, []⟩))
      (sentBy (handleQuery api data env ⟨world, []⟩)) := by
  unfold handleTcpConnection
  rw [hread, call_ok_bind]
  refine (?_ : Agrees _ _) env ⟨world, []⟩ rfl
  refine agrees_call fun decoded _ => ?_
  cases decoded with
  | error e => exact agrees_quick (by decide) (fun _ => rfl) agrees_pure
  | ok query =>
      dsimp only
      generalize query.header.qr = qr, query.questions = questions
      cases qr with
      | true => exact agrees_pure
      | false =>
          cases questions with
          | nil => exact agrees_pure
          | cons question others =>
              refine agrees_bind (quiet_resolver _) fun result => ?_
              exact agrees_result api query question result

/-- **The servers agree**: from one state of the resolver, what the TCP handler
writes in answer to a framed request is what the UDP handler sends in answer to
the request, with the one exception of a positive answer that is too large. -/
theorem servers_agree (env : ρ) (world : σ) (request : Request) (rest : Bytes) :
    SameAnswer
      (sentBy (handleTcpConnection api (tcpFrame request.bytes ++ rest) env ⟨world, []⟩))
      (sentBy (handleQuery api request.bytes env ⟨world, []⟩)) := by
  by_cases hne : request.bytes = []
  · -- A frame of length 0 is an error, and so is a datagram without a header.
    rw [hne, handleTcpConnection, readTcpRequest_empty]
    exact .silent
  exact connection_agrees api (readTcpRequest_frame request rest hne) env world

end Handlers

end FastDns.Server
