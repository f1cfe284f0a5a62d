/-
The data model of `src/dns/types.rs` and `src/dns/error.rs`: header, question,
resource record, message, the parsed forms of RDATA and the error type.

Field names and field types are the source's. A domain name is the byte string
of its labels, as everywhere in the program; nothing in its type says that it
is well formed. Text (`String`) is kept as its UTF-8 bytes.
-/

import FastDns.Lib.Bytes

namespace FastDns.Dns

open FastDns.Lib

/-! ### Addresses -/

structure Ipv4Addr where
  a : UInt8
  b : UInt8
  c : UInt8
  d : UInt8
deriving DecidableEq, Repr

def Ipv4Addr.octets (ip : Ipv4Addr) : Bytes := [ip.a, ip.b, ip.c, ip.d]

/-- Sixteen octets. -/
structure Ipv6Addr where
  octets : Bytes
  size : octets.length = 16
deriving DecidableEq, Repr

inductive IpAddr where
  | v4 (ip : Ipv4Addr)
  | v6 (ip : Ipv6Addr)
deriving DecidableEq, Repr

/-! ### Records -/

structure Soa where
  mname : Bytes
  rname : Bytes
  serial : UInt32
  refresh : UInt32
  retry : UInt32
  expire : UInt32
  minimum : UInt32
deriving DecidableEq, Repr

structure Rrsig where
  typeCovered : UInt16
  algorithm : UInt8
  labels : UInt8
  originalTtl : UInt32
  signatureExpiration : UInt32
  signatureInception : UInt32
  keyTag : UInt16
  signerName : Bytes
  signature : Bytes
deriving DecidableEq, Repr

structure Dnskey where
  flags : UInt16
  protocol : UInt8
  algorithm : UInt8
  publicKey : Bytes
deriving DecidableEq, Repr

structure Ds where
  keyTag : UInt16
  algorithm : UInt8
  digestType : UInt8
  digest : Bytes
deriving DecidableEq, Repr

structure Nsec3 where
  hashAlgorithm : UInt8
  flags : UInt8
  iterations : UInt16
  salt : Bytes
  nextHashedOwner : Bytes
  typeBitMaps : Bytes
deriving DecidableEq, Repr

/-- The parsed form of an RDATA. -/
inductive RData where
  | a (ip : Ipv4Addr)
  | aaaa (ip : Ipv6Addr)
  | cname (name : Bytes)
  | ns (name : Bytes)
  | ptr (name : Bytes)
  | mx (preference : UInt16) (exchange : Bytes)
  | soa (soa : Soa)
  | txt (strings : List Bytes)
  | srv (priority weight port : UInt16) (target : Bytes)
  | rrsig (rrsig : Rrsig)
  | dnskey (dnskey : Dnskey)
  | nsec (nextDomain typeBitMaps : Bytes)
  | ds (ds : Ds)
  | nsec3 (nsec3 : Nsec3)
  | unknown (original : Bytes)
deriving DecidableEq, Repr

structure ResourceRecord where
  name : Bytes
  rtype : UInt16
  rclass : UInt16
  ttl : UInt32
  rdlength : UInt16
  rdata : Bytes
  parsed : Option RData
deriving DecidableEq, Repr

structure Question where
  qname : Bytes
  qtype : UInt16
  qclass : UInt16
deriving DecidableEq, Repr

/-! ### Messages -/

structure Header where
  id : UInt16
  qr : Bool
  opcode : UInt8
  aa : Bool
  tc : Bool
  rd : Bool
  ra : Bool
  z : UInt8
  ad : Bool
  cd : Bool
  rcode : UInt8
  qdcount : UInt16
  ancount : UInt16
  nscount : UInt16
  arcount : UInt16
deriving DecidableEq, Repr

/-- `Header::new_query` -/
def Header.newQuery (id : UInt16) (rd : Bool) : Header where
  id
  qr := false
  opcode := 0
  aa := false
  tc := false
  rd
  ra := false
  z := 0
  ad := false
  cd := false
  rcode := 0
  qdcount := 0
  ancount := 0
  nscount := 0
  arcount := 0

/-- `Header::new_response` -/
def Header.newResponse (id : UInt16) (rcode : UInt8) : Header where
  id
  qr := true
  opcode := 0
  aa := false
  tc := false
  rd := true
  ra := true
  z := 0
  ad := false
  cd := false
  rcode
  qdcount := 0
  ancount := 0
  nscount := 0
  arcount := 0

structure Message where
  header : Header
  questions : List Question
  answers : List ResourceRecord
  authorities : List ResourceRecord
  additionals : List ResourceRecord
deriving DecidableEq, Repr

/-- `OptRecord`, without the option list: `to_resource_record` never writes it. -/
structure OptRecord where
  udpPayloadSize : UInt16
  extRcode : UInt8
  ednsVersion : UInt8
  dnssecOk : Bool
deriving DecidableEq, Repr

/-- Maximum EDNS0 UDP payload (`constants.rs`). -/
def maxEdnsPayload : UInt16 := 8192

/-- `OptRecord::new` -/
def OptRecord.new (dnssecOk : Bool) : OptRecord where
  udpPayloadSize := maxEdnsPayload
  extRcode := 0
  ednsVersion := 0
  dnssecOk

/-- `OptRecord::to_resource_record` -/
def OptRecord.toResourceRecord (opt : OptRecord) : ResourceRecord where
  name := [0]
  rtype := 41
  rclass := opt.udpPayloadSize
  ttl := (opt.extRcode.toUInt32 <<< 24) ||| (opt.ednsVersion.toUInt32 <<< 16) |||
    (opt.dnssecOk.toUInt32 <<< 15)
  rdlength := 0
  rdata := []
  parsed := none

/-! ### Errors -/

/-- `DnsError`; an I/O error is kept as its text. -/
inductive DnsError where
  | malformed (reason : String)
  | nxDomain (soa : List ResourceRecord) (ad : Bool)
  | transport (reason : String)
  | bufferTooSmall (need have_ : Nat)
  | unknownRecordType (rtype : Nat)
  | invalidPointer (ptr : Nat)
  | invalidLabel (reason : String)
  | unexpectedEof
  | io (reason : String)
deriving DecidableEq, Repr

/-- `impl Display for DnsError` -/
def DnsError.display : DnsError → String
  | .malformed reason => "malformed DNS message: " ++ reason
  | .nxDomain _ _ => "NXDOMAIN"
  | .transport reason => "transport error: " ++ reason
  | .bufferTooSmall need have_ =>
      "buffer too small: need " ++ toString need ++ " bytes, have " ++ toString have_
  | .unknownRecordType rtype => "unknown record type: " ++ toString rtype
  | .invalidPointer ptr => "invalid compression pointer at offset " ++ toString ptr
  | .invalidLabel reason => "invalid label: " ++ reason
  | .unexpectedEof => "unexpected end of data"
  | .io reason => "I/O error: " ++ reason

/-- What a function of the program returns, or how it fails to return. -/
abbrev DnsResult (α : Type) := Outcome DnsError α

end FastDns.Dns
