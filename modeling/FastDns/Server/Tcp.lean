/-
The TCP server (`src/server/tcp.rs`): what one connection leads to.

The handler reads one framed request from what the client sends before it
closes its side, and writes at most one framed response.
-/

import FastDns.Server.Udp

namespace FastDns.Server

open FastDns.Lib FastDns.Dns

/-! ### Frames -/

/-- `MAX_TCP_MESSAGE` -/
def maxTcpMessage : Nat := 65535

/-- A message with its length in front. The cast to 16 bits is unchecked. -/
def tcpFrame (data : Bytes) : Bytes := u16ToBeBytes (UInt16.ofNat data.length) ++ data

/-! ### One connection -/

section Handler

variable {ρ σ ε : Type}

/-- The two reads of `handle_tcp_connection`: the length, then the message. -/
def readTcpRequest (stream : Bytes) : DnsResult Bytes :=
  if stream.length < 2 then .err (.malformed "TCP connection closed before length prefix")
  else
    let msgLen := (u16At stream 0).toNat
    if msgLen > maxTcpMessage ∨ msgLen = 0 then .err (.malformed "Invalid TCP message length")
    else if stream.length < 2 + msgLen then
      .err (.malformed "TCP connection closed before message body")
    else .ok ((stream.drop 2).take msgLen)

/-- `write_tcp_response` -/
def writeTcpResponse (data : Bytes) : Serve ρ σ ε Unit :=
  if data.length > maxTcpMessage then fail (.bufferTooSmall data.length maxTcpMessage)
  else send (tcpFrame data)

variable (api : ResolverApi ρ σ ε)

/-- The `match` of `handle_tcp_connection` on what the resolver returned. -/
def tcpResponse (queryData : Bytes) (request : Message) (question : Question) :
    Except DnsError (List ResourceRecord × Bool) → Serve ρ σ ε Bytes
  | .ok (records, adFlag) => do
      let additionals ← dnssecAdditionals api (clientWantsDnssec request)
        (labelsToString question.qname) question.qclass
      call (encodeMessage (buildResponse request.header question records additionals
        (clientWantsDnssec request && adFlag)))
  | .error (.nxDomain soa ad) => call (encodeMessage (nxdomainResponse request question soa ad))
  | .error e => do
      match ← call (quickErrorResponse queryData (errorRcode e)) with
      | some response => pure response
      | none => fail (.malformed "Failed to build error response")

/-- `handle_tcp_connection` -/
def handleTcpConnection (stream : Bytes) : Serve ρ σ ε Unit := do
  let queryData ← call (readTcpRequest stream)
  match ← call (decodeMessage queryData).attempt with
  | .error _ =>
      match ← call (quickErrorResponse queryData 1) with
      | some response => writeTcpResponse response
      | none => pure ()
  | .ok request =>
      match request.header.qr, request.questions with
      | false, question :: _ => do
          let result ← resolver
            (api.resolveWithAd (labelsToString question.qname) question.qtype question.qclass)
          let responseBytes ← tcpResponse api queryData request question result
          writeTcpResponse responseBytes
      | _, _ => pure ()

end Handler

end FastDns.Server
