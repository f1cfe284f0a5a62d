/-
The UDP server (`src/server/udp.rs`): what one request datagram leads to.

A handler is a program over the state of the resolver and the list of what it
has sent. The resolver itself is a parameter (`ResolverApi`): any two programs
over its own state in the place of `resolve_with_ad` and `resolve_dnssec`. Socket
writes succeed. Logging, the limit on concurrent queries and the prefetching at
the start are left out.
-/

import FastDns.Dns.Message
import FastDns.Dns.Names
import FastDns.Lib.Run

namespace FastDns.Server

open FastDns.Lib FastDns.Dns

/-! ### Handlers -/

/-- The calls of a handler on the resolver. -/
structure ResolverApi (ρ σ ε : Type) where
  /-- `resolve_with_ad`: records and the AD flag, or an error. -/
  resolveWithAd : Bytes → UInt16 → UInt16 →
    Run ρ σ ε (Except DnsError (List ResourceRecord × Bool))
  /-- `resolve_dnssec` -/
  resolveDnssec : Bytes → UInt16 → UInt16 → Run ρ σ ε (List ResourceRecord)

/-- The resolver behind a server, and what the handler has sent. -/
structure ServerSt (σ : Type) where
  resolver : σ
  sent : List Bytes

/-- Programs of a handler. It returns an error of its own, or the resolver ends
the task. -/
abbrev Serve (ρ σ ε : Type) := Run ρ (ServerSt σ) (DnsError ⊕ ε)

section Steps

variable {ρ σ ε α : Type}

/-- A call on the resolver. -/
def resolver (m : Run ρ σ ε α) : Serve ρ σ ε α :=
  m.within Sum.inr ServerSt.resolver fun s st => { st with resolver := s }

/-- A fallible function without state, with `?`. -/
def call (x : DnsResult α) : Serve ρ σ ε α := Run.lift Sum.inl x

/-- `return Err(..)` -/
def fail (e : DnsError) : Serve ρ σ ε α := Run.throw (.inl e)

/-- A write to the socket. -/
def send (bytes : Bytes) : Serve ρ σ ε Unit :=
  Run.modify fun st => { st with sent := st.sent ++ [bytes] }

end Steps

/-! ### Responses -/

/-- `MAX_UDP_PAYLOAD` -/
def maxUdpPayload : Nat := 4096

/-- `build_response`: the CNAME records first. -/
def buildResponse (reqHeader : Header) (question : Question)
    (answers additionals : List ResourceRecord) (ad : Bool) : Message where
  header := { Header.newResponse reqHeader.id 0 with rd := reqHeader.rd, ra := true, ad }
  questions := [question]
  answers := (answers.filter fun rec => rec.rtype = 5) ++ answers.filter fun rec => rec.rtype ≠ 5
  authorities := []
  additionals

/-- `client_wants_dnssec` -/
def clientWantsDnssec (request : Message) : Bool :=
  request.additionals.any fun r => r.rtype = 41 && (r.ttl >>> 15) &&& 1 = 1

/-- `dnssec_opt_record` -/
def dnssecOptRecord : ResourceRecord where
  name := [0]
  rtype := 41
  rclass := 4096
  ttl := (1 : UInt32) <<< 15
  rdlength := 0
  rdata := []
  parsed := none

/-- `extract_zone`: the last two labels. -/
def extractZone (name : Bytes) : Bytes :=
  match ((trimEndDots name).splitOn 46).reverse with
  | last :: beforeLast :: _ => beforeLast ++ 46 :: last
  | _ => trimEndDots name

/-- The questions `quick_error_response` echoes. The count of questions loses its
upper four bits. -/
def quickErrorQuestions (queryData : Bytes) : DnsResult (List Question) := do
  if queryData.length ≥ 12 then
    let high ← index queryData 4
    let low ← index queryData 5
    let qdcount := u16FromBeBytes (high &&& 0x0f) low
    if qdcount > 0 then
      match ← (Question.fromBytes queryData 12).attempt with
      | .ok (q, _) => pure [q]
      | .error _ => pure []
    else pure []
  else pure []

/-- `quick_error_response` -/
def quickErrorResponse (queryData : Bytes) (rcode : UInt8) : DnsResult (Option Bytes) := do
  if queryData.length < 2 then pure none
  else
    let id ← readU16 queryData 0
    let questions ← quickErrorQuestions queryData
    let msg : Message := ⟨Header.newResponse id rcode, questions, [], [], []⟩
    match ← (encodeMessage msg).attempt with
    | .ok bytes => pure (some bytes)
    | .error _ => pure none

/-- `str::contains` -/
def containsText (text part : String) : Bool := text.toList.tails.any part.toList.isPrefixOf

/-- The response code for an error of the resolver. -/
def errorRcode (e : DnsError) : UInt8 := if containsText e.display "NXDOMAIN" then 3 else 2

/-- The response without its records, and with TC set. -/
def truncated (response : Message) : Message where
  header := { response.header with tc := true }
  questions := response.questions
  answers := []
  authorities := []
  additionals := []

/-- The answer to a name that does not exist: the SOA records as authority. -/
def nxdomainResponse (request : Message) (question : Question) (soa : List ResourceRecord)
    (ad : Bool) : Message where
  header := { Header.newResponse request.header.id 3 with
    rd := request.header.rd, ra := true, ad }
  questions := [question]
  answers := []
  authorities := soa
  additionals := if clientWantsDnssec request then [dnssecOptRecord] else []

/-! ### One request -/

section Handler

variable {ρ σ ε : Type}

/-- The records of a resolution, none if it failed. -/
def recordsOf : Except DnsError (List ResourceRecord × Bool) → List ResourceRecord
  | .ok (records, _) => records
  | .error _ => []

/-- A response for which there may be none. -/
def sendSome : Option Bytes → Serve ρ σ ε Unit
  | some response => send response
  | none => pure ()

/-- A positive answer, cut to its question if it is too large. -/
def sendAnswer (response : Message) : Serve ρ σ ε Unit := do
  let responseBytes ← call (encodeMessage response)
  if responseBytes.length > maxUdpPayload then do
    let truncatedBytes ← call (encodeMessage (truncated response))
    send (truncatedBytes.take maxUdpPayload)
  else send responseBytes

variable (api : ResolverApi ρ σ ε)

/-- The additional records of a positive answer: for a client that wants DNSSEC,
keys, signatures and an OPT record with DO=1. Both handlers have these lines. -/
def dnssecAdditionals (wantsDnssec : Bool) (qname : Bytes) (qclass : UInt16) :
    Serve ρ σ ε (List ResourceRecord) :=
  if wantsDnssec then do
    let dnskeys ← resolver (api.resolveWithAd (extractZone qname) 48 qclass)
    let rrsigs ← resolver (api.resolveDnssec qname 46 qclass)
    pure (recordsOf dnskeys ++ rrsigs ++ [dnssecOptRecord])
  else pure []

/-- `handle_query` once the resolver has returned. -/
def sendResult (queryData : Bytes) (request : Message) (question : Question) :
    Except DnsError (List ResourceRecord × Bool) → Serve ρ σ ε Unit
  | .ok (records, adFlag) => do
      let additionals ← dnssecAdditionals api (clientWantsDnssec request)
        (labelsToString question.qname) question.qclass
      sendAnswer (buildResponse request.header question records additionals
        (clientWantsDnssec request && adFlag))
  | .error (.nxDomain soa ad) => do
      let encoded ← call (encodeMessage (nxdomainResponse request question soa ad)).attempt
      sendSome encoded.toOption
  | .error e => do
      let response ← call (quickErrorResponse queryData (errorRcode e))
      sendSome response

/-- `handle_query` -/
def handleQuery (queryData : Bytes) : Serve ρ σ ε Unit := do
  match ← call (decodeMessage queryData).attempt with
  | .error _ => do
      let response ← call (quickErrorResponse queryData 1)
      sendSome response
  | .ok request =>
      match request.header.qr, request.questions with
      | false, question :: _ => do
          let result ← resolver
            (api.resolveWithAd (labelsToString question.qname) question.qtype question.qclass)
          sendResult api queryData request question result
      | _, _ => pure ()

end Handler

end FastDns.Server
