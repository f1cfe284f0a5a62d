/-
Header, question, record and message codecs (`src/dns/types.rs`) and the two
entry points of `src/dns/wire.rs`.

A reader takes the message and an offset and returns the parsed value with the
next offset. A writer takes the room left in the buffer and returns the bytes
it writes, so the offset the source returns is their length.
-/

import FastDns.Dns.Rdata

namespace FastDns.Dns

open FastDns.Lib

/-! ### Reading -/

/-- `Header::from_bytes` -/
def Header.fromBytes (data : Bytes) : DnsResult Header := do
  if data.length < 12 then .err (.bufferTooSmall 12 data.length)
  else
    let id ← readU16 data 0
    let flags ← readU16 data 2
    let qdcount ← readU16 data 4
    let ancount ← readU16 data 6
    let nscount ← readU16 data 8
    let arcount ← readU16 data 10
    pure {
      id
      qr := (flags >>> 15) &&& 1 == 1
      opcode := ((flags >>> 11) &&& 0x0f).toUInt8
      aa := (flags >>> 10) &&& 1 == 1
      tc := (flags >>> 9) &&& 1 == 1
      rd := (flags >>> 8) &&& 1 == 1
      ra := (flags >>> 7) &&& 1 == 1
      z := ((flags >>> 6) &&& 0x03).toUInt8
      ad := (flags >>> 5) &&& 1 == 1
      cd := (flags >>> 4) &&& 1 == 1
      rcode := (flags &&& 0x0f).toUInt8
      qdcount
      ancount
      nscount
      arcount }

/-- `Question::from_bytes` -/
def Question.fromBytes (data : Bytes) (offset : Nat) : DnsResult (Question × Nat) := do
  let (qname, off) ← decodeDomainName data offset
  if off + 4 > data.length then .err .unexpectedEof
  else
    let qtype ← readU16 data off
    let qclass ← readU16 data (off + 2)
    pure (⟨qname, qtype, qclass⟩, off + 4)

/-- The stored RDATA and its length: parsed RDATA is written back without
compression pointers, and the cast of its new length to 16 bits is unchecked. -/
def storedRdata (parsed : Option RData) (rawRdata : Bytes) (rdlength : UInt16) :
    Bytes × UInt16 :=
  match parsed with
  | some p => (decompressedRdata p, UInt16.ofNat (decompressedRdata p).length)
  | none => (rawRdata, rdlength)

/-- `ResourceRecord::from_bytes` -/
def ResourceRecord.fromBytes (data : Bytes) (offset : Nat) :
    DnsResult (ResourceRecord × Nat) := do
  let (name, off) ← decodeDomainName data offset
  if off + 10 > data.length then .err .unexpectedEof
  else
    let rtype ← readU16 data off
    let rclass ← readU16 data (off + 2)
    let ttl ← readU32 data (off + 4)
    let rdlength ← readU16 data (off + 8)
    let rdlen := rdlength.toNat
    let dataStart := off + 10
    if dataStart + rdlen > data.length then .err .unexpectedEof
    else
      let rawRdata ← slice data dataStart (dataStart + rdlen)
      let parsed ← parseRdata rtype rawRdata data dataStart
      let (rdata, rdlength) := storedRdata parsed rawRdata rdlength
      pure (⟨name, rtype, rclass, ttl, rdlength, rdata, parsed⟩, dataStart + rdlen)

/-- One of the four section loops of `Message::from_bytes`: `count` items, each
starting where the one before it ended. -/
def parseItems {α : Type} (parse : Nat → DnsResult (α × Nat)) :
    Nat → Nat → DnsResult (List α × Nat)
  | 0, offset => .ok ([], offset)
  | count + 1, offset => do
      let (item, offset) ← parse offset
      let (items, offset) ← parseItems parse count offset
      pure (item :: items, offset)

/-- `Message::from_bytes` -/
def Message.fromBytes (data : Bytes) : DnsResult Message := do
  let header ← Header.fromBytes data
  let (questions, offset) ← parseItems (Question.fromBytes data) header.qdcount.toNat 12
  let (answers, offset) ← parseItems (ResourceRecord.fromBytes data) header.ancount.toNat offset
  let (authorities, offset) ← parseItems (ResourceRecord.fromBytes data) header.nscount.toNat offset
  let (additionals, _) ← parseItems (ResourceRecord.fromBytes data) header.arcount.toNat offset
  pure ⟨header, questions, answers, authorities, additionals⟩

/-- `decode_message` -/
def decodeMessage (data : Bytes) : DnsResult Message := Message.fromBytes data

/-! ### Writing -/

/-- The flags word of `Header::to_bytes`. -/
def Header.flags (h : Header) : UInt16 :=
  h.qr.toUInt16 <<< 15 ||| h.opcode.toUInt16 <<< 11 ||| h.aa.toUInt16 <<< 10 |||
    h.tc.toUInt16 <<< 9 ||| h.rd.toUInt16 <<< 8 ||| h.ra.toUInt16 <<< 7 |||
    h.z.toUInt16 <<< 6 ||| h.ad.toUInt16 <<< 5 ||| h.cd.toUInt16 <<< 4 ||| h.rcode.toUInt16

/-- `Header::to_bytes` -/
def Header.toBytes (h : Header) (room : Nat) : DnsResult Bytes :=
  if room < 12 then .err (.bufferTooSmall 12 room)
  else .ok (u16ToBeBytes h.id ++ u16ToBeBytes h.flags ++ u16ToBeBytes h.qdcount ++
    u16ToBeBytes h.ancount ++ u16ToBeBytes h.nscount ++ u16ToBeBytes h.arcount)

/-- `Question::to_bytes` -/
def Question.toBytes (q : Question) (room : Nat) : DnsResult Bytes :=
  let total := q.qname.length + 4
  if room < total then .err (.bufferTooSmall total room)
  else .ok (q.qname ++ u16ToBeBytes q.qtype ++ u16ToBeBytes q.qclass)

/-- `ResourceRecord::to_bytes`. `copy_from_slice` panics when `rdata` does not
have the length `rdlength` says. -/
def ResourceRecord.toBytes (r : ResourceRecord) (room : Nat) : DnsResult Bytes :=
  let total := r.name.length + 10 + r.rdlength.toNat
  if room < total then .err (.bufferTooSmall total room)
  else if r.rdata.length ≠ r.rdlength.toNat then .panic
  else .ok (r.name ++ u16ToBeBytes r.rtype ++ u16ToBeBytes r.rclass ++ u32ToBeBytes r.ttl ++
    u16ToBeBytes r.rdlength ++ r.rdata)

/-- One of the four section loops of `Message::to_bytes`, in a buffer of
`capacity` bytes of which `written` are taken. -/
def writeItems {α : Type} (write : α → Nat → DnsResult Bytes) (capacity : Nat) :
    List α → Bytes → DnsResult Bytes
  | [], written => .ok written
  | item :: items, written => do
      let bytes ← write item (capacity - written.length)
      writeItems write capacity items (written ++ bytes)

/-- `Message::to_bytes` -/
def Message.toBytes (m : Message) (capacity : Nat) : DnsResult Bytes := do
  let header := { m.header with
    qdcount := UInt16.ofNat m.questions.length
    ancount := UInt16.ofNat m.answers.length
    nscount := UInt16.ofNat m.authorities.length
    arcount := UInt16.ofNat m.additionals.length }
  let written ← header.toBytes capacity
  let written ← writeItems Question.toBytes capacity m.questions written
  let written ← writeItems ResourceRecord.toBytes capacity m.answers written
  let written ← writeItems ResourceRecord.toBytes capacity m.authorities written
  writeItems ResourceRecord.toBytes capacity m.additionals written

theorem writeItems_singleton {α : Type} {write : α → Nat → DnsResult Bytes} {capacity : Nat}
    {item : α} {written bytes : Bytes} (h : write item (capacity - written.length) = .ok bytes) :
    writeItems write capacity [item] written = .ok (written ++ bytes) := by
  rw [writeItems, h, Outcome.ok_bind, writeItems]

theorem Header.toBytes_of_room (h : Header) {room : Nat} (hroom : 12 ≤ room) :
    ∃ bytes, h.toBytes room = .ok bytes ∧ bytes.length = 12 := by
  refine ⟨_, if_neg (Nat.not_lt.mpr hroom), ?_⟩
  simp [u16ToBeBytes]

theorem Question.toBytes_of_room (q : Question) {room : Nat} (hroom : q.qname.length + 4 ≤ room) :
    ∃ bytes, q.toBytes room = .ok bytes ∧ bytes.length = q.qname.length + 4 := by
  refine ⟨_, if_neg (Nat.not_lt.mpr hroom), ?_⟩
  simp [u16ToBeBytes]

theorem ResourceRecord.toBytes_of_room (r : ResourceRecord) {room : Nat}
    (hroom : r.name.length + 10 + r.rdlength.toNat ≤ room)
    (hrdata : r.rdata.length = r.rdlength.toNat) : ∃ bytes, r.toBytes room = .ok bytes := by
  refine ⟨_, (if_neg (Nat.not_lt.mpr hroom)).trans (if_neg ?_)⟩
  exact not_not.mpr hrdata

/-- `MAX_DNS_MESSAGE_SIZE` -/
def maxDnsMessageSize : Nat := 8192

/-- `encode_message` -/
def encodeMessage (m : Message) : DnsResult Bytes := m.toBytes maxDnsMessageSize

end FastDns.Dns
