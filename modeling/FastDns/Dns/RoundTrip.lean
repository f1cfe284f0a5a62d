/-
Encoding a message and decoding it again.

`Message.wire` is the byte string a message is written as; `encodeMessage_eq_ok`
says when it is written. Reading it back comes down to reading each record at the
offset where it starts (`decode_wire_iff`), and that to its RDATA.

A message whose RDATA has the layouts of its types comes back as it was
(`encode_decode_roundtrip`). A message that was itself decoded may hold RDATA no
parser accepted; such bytes are written as they are, at another place than they
came from, and `reencoded_iff` says exactly when they are left alone there.
-/

import FastDns.Dns.Layout
import FastDns.Dns.RdataLayout

namespace FastDns.Dns

open FastDns.Lib

/-! ### The bytes of a message -/

def Question.wire (q : Question) : Bytes := q.qname ++ u16ToBeBytes q.qtype ++ u16ToBeBytes q.qclass

def ResourceRecord.wire (r : ResourceRecord) : Bytes :=
  r.name ++ u16ToBeBytes r.rtype ++ u16ToBeBytes r.rclass ++ u32ToBeBytes r.ttl ++
    u16ToBeBytes r.rdlength ++ r.rdata

namespace Message

/-- The records of all three sections. -/
def records (m : Message) : List ResourceRecord := m.answers ++ m.authorities ++ m.additionals

/-- The header with the counts `Message::to_bytes` puts into it. -/
def writtenHeader (m : Message) : Header := { m.header with
  qdcount := UInt16.ofNat m.questions.length
  ancount := UInt16.ofNat m.answers.length
  nscount := UInt16.ofNat m.authorities.length
  arcount := UInt16.ofNat m.additionals.length }

def wire (m : Message) : Bytes :=
  m.writtenHeader.wire ++ m.questions.flatMap Question.wire ++
    m.records.flatMap ResourceRecord.wire

/-- 12 + sum(qname + 4) + sum(name + 10 + rdata) -/
def wireSize (m : Message) : Nat :=
  12 + totalSize (fun q => q.qname.length + 4) m.questions +
    totalSize (fun r => r.name.length + 10 + r.rdata.length) m.records

/-- Where the first record starts. -/
def recordsStart (m : Message) : Nat := 12 + totalSize (fun q => q.wire.length) m.questions

end Message

theorem Question.length_wire (q : Question) : q.wire.length = q.qname.length + 4 := by
  simp only [Question.wire, List.length_append, length_u16ToBeBytes]

theorem ResourceRecord.length_wire (r : ResourceRecord) :
    r.wire.length = r.name.length + 10 + r.rdata.length := by
  simp only [ResourceRecord.wire, List.length_append, length_u16ToBeBytes, length_u32ToBeBytes]

theorem Message.length_wire (m : Message) : m.wire.length = m.wireSize := by
  have hquestions : (fun q : Question => q.wire.length) = fun q => q.qname.length + 4 :=
    funext Question.length_wire
  have hrecords : (fun r : ResourceRecord => r.wire.length) =
      fun r => r.name.length + 10 + r.rdata.length := funext ResourceRecord.length_wire
  rw [Message.wire, List.length_append, List.length_append, length_flatMap_wire,
    length_flatMap_wire, hquestions, hrecords, Header.length_wire, Message.wireSize]

/-! ### Writing -/

section Writing

theorem question_toBytes_eq_ok {q : Question} {room : Nat} {bytes : Bytes} :
    q.toBytes room = .ok bytes ↔ q.wire.length ≤ room ∧ True ∧ bytes = q.wire := by
  rw [Question.length_wire]
  unfold Question.toBytes
  dsimp only
  split
  · rename_i hroom
    simp [Nat.not_le.mpr hroom]
  · rename_i hroom
    simp [Nat.not_lt.mp hroom, Question.wire, eq_comm]

theorem record_toBytes_eq_ok {r : ResourceRecord} {room : Nat} {bytes : Bytes} :
    r.toBytes room = .ok bytes ↔
      r.wire.length ≤ room ∧ r.rdata.length = r.rdlength.toNat ∧ bytes = r.wire := by
  rw [ResourceRecord.length_wire]
  unfold ResourceRecord.toBytes
  dsimp only
  by_cases hlen : r.rdata.length = r.rdlength.toNat
  · rw [hlen]
    split
    · rename_i hroom
      simp [Nat.not_le.mpr hroom]
    · rename_i hroom
      simp [Nat.not_lt.mp hroom, ResourceRecord.wire, eq_comm]
  · split
    · simp [hlen]
    · simp [hlen]

/-- A section is written as the bytes of its items, if they all fit. -/
theorem writeItems_eq_ok {α : Type} {write : α → Nat → DnsResult Bytes} {wire : α → Bytes}
    {Fits : α → Prop} {capacity : Nat}
    (hwrite : ∀ item room bytes, write item room = .ok bytes ↔
      (wire item).length ≤ room ∧ Fits item ∧ bytes = wire item)
    {items : List α} {written bytes : Bytes} (hroom : written.length ≤ capacity) :
    writeItems write capacity items written = .ok bytes ↔
      (written ++ items.flatMap wire).length ≤ capacity ∧ (∀ item ∈ items, Fits item) ∧
        bytes = written ++ items.flatMap wire := by
  induction items generalizing written with
  | nil => simp [writeItems, hroom, eq_comm]
  | cons item items ih =>
      rw [writeItems, Outcome.bind_eq_ok, List.flatMap_cons, ← List.append_assoc,
        List.forall_mem_cons]
      constructor
      · rintro ⟨first, hfirst, hrest⟩
        obtain ⟨hlen, hfits, rfl⟩ := (hwrite _ _ _).mp hfirst
        have hwritten : (written ++ wire item).length ≤ capacity := by
          rw [List.length_append]
          omega
        obtain ⟨hall, hrestFits, rfl⟩ := (ih hwritten).mp hrest
        exact ⟨hall, ⟨hfits, hrestFits⟩, rfl⟩
      · rintro ⟨hall, ⟨hfits, hrestFits⟩, rfl⟩
        have hwritten : (written ++ wire item).length ≤ capacity := by
          rw [List.length_append] at hall
          omega
        refine ⟨wire item, (hwrite _ _ _).mpr ⟨?_, hfits, rfl⟩, ?_⟩
        · rw [List.length_append] at hwritten
          omega
        · exact (ih hwritten).mpr ⟨hall, hrestFits, rfl⟩

/-- Two sections after each other are written like one. -/
theorem writeItems_append {α : Type} (write : α → Nat → DnsResult Bytes) (capacity : Nat)
    (xs ys : List α) (written : Bytes) :
    writeItems write capacity (xs ++ ys) written =
      (writeItems write capacity xs written >>= writeItems write capacity ys) := by
  induction xs generalizing written with
  | nil => rfl
  | cons x xs ih =>
      rw [List.cons_append, writeItems, writeItems]
      cases write x (capacity - written.length) with
      | ok bytes => exact ih _
      | err e => rfl
      | panic => rfl
      | diverge => rfl

theorem encodeMessage_eq (m : Message) :
    encodeMessage m =
      (writeItems Question.toBytes maxDnsMessageSize m.questions m.writtenHeader.wire >>=
        writeItems ResourceRecord.toBytes maxDnsMessageSize m.records) := by
  have hbind : ∀ x : DnsResult Bytes,
      (x >>= writeItems ResourceRecord.toBytes maxDnsMessageSize m.records) = (do
        let written ← x
        let written ← writeItems ResourceRecord.toBytes maxDnsMessageSize m.answers written
        let written ← writeItems ResourceRecord.toBytes maxDnsMessageSize m.authorities written
        writeItems ResourceRecord.toBytes maxDnsMessageSize m.additionals written) := by
    intro x
    cases x with
    | ok written =>
        rw [Outcome.ok_bind, Outcome.ok_bind, Message.records, writeItems_append,
          writeItems_append]
        cases writeItems ResourceRecord.toBytes maxDnsMessageSize m.answers written <;> rfl
    | err e => rfl
    | panic => rfl
    | diverge => rfl
  rw [hbind]
  rfl

/-- A section ends in bytes or an error if its items do. -/
theorem writeItems_ends {α : Type} {write : α → Nat → DnsResult Bytes} {capacity : Nat}
    {items : List α}
    (hwrite : ∀ item ∈ items, ∀ room, (∃ bytes, write item room = .ok bytes) ∨
      ∃ e, write item room = .err e) (written : Bytes) :
    (∃ bytes, writeItems write capacity items written = .ok bytes) ∨
      ∃ e, writeItems write capacity items written = .err e := by
  induction items generalizing written with
  | nil => exact .inl ⟨written, rfl⟩
  | cons item items ih =>
      rw [writeItems]
      rcases hwrite item List.mem_cons_self (capacity - written.length) with ⟨bytes, hok⟩ | ⟨e, herr⟩
      · rw [hok, Outcome.ok_bind]
        exact ih (fun item hitem => hwrite item (List.mem_cons_of_mem _ hitem)) _
      · rw [herr, Outcome.err_bind]
        exact .inr ⟨e, rfl⟩

/-- Records that agree with their length fields are written or refused. -/
theorem encodeMessage_ends {m : Message}
    (hrecords : ∀ r ∈ m.records, r.rdata.length = r.rdlength.toNat) :
    (∃ b, encodeMessage m = .ok b) ∨ ∃ e, encodeMessage m = .err e := by
  have hquestion : ∀ q ∈ m.questions, ∀ room, (∃ bytes, q.toBytes room = .ok bytes) ∨
      ∃ e, q.toBytes room = .err e := by
    intro q _ room
    unfold Question.toBytes
    dsimp only
    split
    · exact .inr ⟨_, rfl⟩
    · exact .inl ⟨_, rfl⟩
  have hrecord : ∀ r ∈ m.records, ∀ room, (∃ bytes, r.toBytes room = .ok bytes) ∨
      ∃ e, r.toBytes room = .err e := by
    intro r hr room
    unfold ResourceRecord.toBytes
    dsimp only
    split
    · exact .inr ⟨_, rfl⟩
    · rw [if_neg (not_not.mpr (hrecords r hr))]
      exact .inl ⟨_, rfl⟩
  rw [encodeMessage_eq]
  rcases writeItems_ends hquestion m.writtenHeader.wire with ⟨written, hok⟩ | ⟨e, herr⟩
  · rw [hok, Outcome.ok_bind]
    exact writeItems_ends hrecord written
  · rw [herr, Outcome.err_bind]
    exact .inr ⟨e, rfl⟩

/-- **When a message is written, and as what.** -/
theorem encodeMessage_eq_ok {m : Message} {b : Bytes} :
    encodeMessage m = .ok b ↔
      m.wire.length ≤ maxDnsMessageSize ∧
        (∀ r ∈ m.records, r.rdata.length = r.rdlength.toNat) ∧ b = m.wire := by
  have hstart : m.writtenHeader.wire.length ≤ maxDnsMessageSize := by
    rw [Header.length_wire, maxDnsMessageSize]
    omega
  rw [encodeMessage_eq, Outcome.bind_eq_ok]
  constructor
  · rintro ⟨written, hquestions, hrecords⟩
    obtain ⟨hroom, _, rfl⟩ :=
      (writeItems_eq_ok (fun q _ _ => question_toBytes_eq_ok (q := q)) hstart).mp hquestions
    exact (writeItems_eq_ok (fun r _ _ => record_toBytes_eq_ok (r := r)) hroom).mp hrecords
  · rintro ⟨hlen, hfits, rfl⟩
    have hroom : (m.writtenHeader.wire ++ m.questions.flatMap Question.wire).length ≤
        maxDnsMessageSize := by
      rw [Message.wire, List.length_append] at hlen
      omega
    refine ⟨_, (writeItems_eq_ok (fun q _ _ => question_toBytes_eq_ok (q := q)) hstart).mpr
      ⟨hroom, fun _ _ => trivial, rfl⟩, ?_⟩
    exact (writeItems_eq_ok (fun r _ _ => record_toBytes_eq_ok (r := r)) hroom).mpr
      ⟨hlen, hfits, rfl⟩

end Writing

/-! ### Reading -/

/-- The fields of a record, its parsed form apart. -/
structure SameRecord (r r' : ResourceRecord) : Prop where
  name : r'.name = r.name
  rtype : r'.rtype = r.rtype
  rclass : r'.rclass = r.rclass
  ttl : r'.ttl = r.ttl
  rdlength : r'.rdlength = r.rdlength
  rdata : r'.rdata = r.rdata

/-- The same questions, and section by section the same records. -/
structure SameContent (m m' : Message) : Prop where
  questions : m'.questions = m.questions
  answers : List.Forall₂ SameRecord m.answers m'.answers
  authorities : List.Forall₂ SameRecord m.authorities m'.authorities
  additionals : List.Forall₂ SameRecord m.additionals m'.additionals

/-- The record that is built when the RDATA of `r` is parsed again. -/
def ResourceRecord.reread (r : ResourceRecord) (parsed : Option RData) : ResourceRecord :=
  { r with
    rdlength := (storedRdata parsed r.rdata r.rdlength).2
    rdata := (storedRdata parsed r.rdata r.rdlength).1
    parsed }

/-- Where the RDATA of a record stands that starts at `off`. -/
def ResourceRecord.rdataStart (r : ResourceRecord) (off : Nat) : Nat := off + r.name.length + 10

/-- The RDATA of `r` is parsed at its place, and stored as it was. -/
def ReadsBack (data : Bytes) (off : Nat) (r : ResourceRecord) : Prop :=
  ∃ parsed, parseRdata r.rtype r.rdata data (r.rdataStart off) = .ok parsed ∧
    SameRecord r (r.reread parsed)

section Reading

variable {data : Bytes} {off : Nat}

theorem question_of_standsAt {q : Question} (hn : WireName q.qname)
    (h : StandsAt data off q.wire) :
    Question.fromBytes data off = .ok (q, off + q.wire.length) := by
  rw [Question.wire, standsAt_append, standsAt_append] at h
  obtain ⟨⟨hname, htype⟩, hclass⟩ := h
  rw [List.length_append, length_u16ToBeBytes, ← Nat.add_assoc] at hclass
  have hroom := hclass.le (List.cons_ne_nil _ _)
  rw [length_u16ToBeBytes] at hroom
  rw [Question.fromBytes, decodeDomainName_of_standsAt hn hname, Outcome.ok_bind]
  dsimp only
  rw [if_neg (by omega), htype.readU16, Outcome.ok_bind, hclass.readU16, Question.length_wire,
    ← Nat.add_assoc]
  rfl

theorem rdata_standsAt {r : ResourceRecord} (h : StandsAt data off r.wire) :
    StandsAt data (r.rdataStart off) r.rdata := by
  have hrdata := (standsAt_append.mp h).2
  simp only [List.length_append, length_u16ToBeBytes, length_u32ToBeBytes, ← Nat.add_assoc]
    at hrdata
  exact hrdata

/-- A record is read where it stands; what becomes of it is up to its RDATA. -/
theorem record_of_standsAt {r : ResourceRecord} (hn : WireName r.name)
    (hlen : r.rdata.length = r.rdlength.toNat) (h : StandsAt data off r.wire) :
    ResourceRecord.fromBytes data off = (do
      let parsed ← parseRdata r.rtype r.rdata data (r.rdataStart off)
      .ok (r.reread parsed, off + r.wire.length)) := by
  have hle := h.le (List.append_ne_nil_of_left_ne_nil (List.append_ne_nil_of_left_ne_nil
    (List.append_ne_nil_of_left_ne_nil (List.append_ne_nil_of_left_ne_nil
      (List.append_ne_nil_of_left_ne_nil hn.ne_nil _) _) _) _) _)
  have hrdata := rdata_standsAt h
  rw [ResourceRecord.length_wire] at hle ⊢
  simp only [ResourceRecord.wire, standsAt_append, List.length_append, length_u16ToBeBytes,
    length_u32ToBeBytes, ← Nat.add_assoc] at h
  obtain ⟨⟨⟨⟨⟨hname, htype⟩, hclass⟩, httl⟩, hrdlength⟩, _⟩ := h
  have hrdlen : rdlenAt data (off + r.name.length) = r.rdata.length := by
    rw [rdlenAt, hrdlength.u16At, hlen]
  have hraw : rawRdataAt data (off + r.name.length) = r.rdata := by
    rw [rawRdataAt, hrdlen]
    exact hrdata.take_drop
  rw [record_of_fits (nameAt_of_standsAt hn hname) (by rw [hrdlen]; omega), hraw, hrdlen,
    htype.u16At]
  refine congrArg _ (funext fun parsed => ?_)
  rw [recordWith, hraw, htype.u16At, hclass.u16At, httl.u32At, hrdlength.u16At, ← Nat.add_assoc,
    ← Nat.add_assoc]
  rfl

/-! ### The section loops -/

section Loops

variable {α β : Type} {parse : Nat → DnsResult (α × Nat)} {size : β → Nat} {R : β → α → Prop}
  {items : List β}

theorem parseItems_of_eachAt
    (h : EachAt size (fun off x => ∃ a, parse off = .ok (a, off + size x) ∧ R x a) off items) :
    ∃ as, parseItems parse items.length off = .ok (as, off + totalSize size items) ∧
      List.Forall₂ R items as := by
  induction items generalizing off with
  | nil => exact ⟨[], rfl, .nil⟩
  | cons x items ih =>
      obtain ⟨⟨a, ha, hrel⟩, hrest⟩ := h
      obtain ⟨as, has, hall⟩ := ih hrest
      refine ⟨a :: as, ?_, .cons hrel hall⟩
      rw [List.length_cons, parseItems, ha, Outcome.ok_bind]
      dsimp only
      rw [has, Outcome.ok_bind, totalSize_cons, ← Nat.add_assoc]
      rfl

/-- The converse, for items whose size is known to the reader. -/
theorem eachAt_of_parseItems
    (hsize : EachAt size (fun off x => ∀ a next, parse off = .ok (a, next) → next = off + size x)
      off items) {as : List α} {next : Nat}
    (h : parseItems parse items.length off = .ok (as, next)) (hrel : List.Forall₂ R items as) :
    next = off + totalSize size items ∧
      EachAt size (fun off x => ∃ a, parse off = .ok (a, off + size x) ∧ R x a) off items := by
  induction items generalizing off as with
  | nil =>
      cases h
      exact ⟨rfl, trivial⟩
  | cons x items ih =>
      obtain ⟨a, mid, rest, ha, hrest, rfl⟩ := parseItems_succ_eq_ok h
      obtain ⟨hfirst, hlater⟩ := hsize
      obtain rfl := hfirst a mid ha
      cases hrel with
      | cons hx hxs =>
          obtain ⟨hnext, heach⟩ := ih hlater hrest hxs
          refine ⟨?_, ⟨a, ha, hx⟩, heach⟩
          rw [hnext, totalSize_cons, Nat.add_assoc]

/-- Everything a loop returns was read somewhere. -/
theorem mem_of_parseItems {count next : Nat} {as : List α}
    (h : parseItems parse count off = .ok (as, next)) :
    ∀ a ∈ as, ∃ start stop, parse start = .ok (a, stop) := by
  induction count generalizing off as with
  | zero =>
      cases h
      exact fun a ha => absurd ha List.not_mem_nil
  | succ count ih =>
      obtain ⟨a, mid, rest, ha, hrest, rfl⟩ := parseItems_succ_eq_ok h
      exact List.forall_mem_cons.mpr ⟨⟨off, mid, ha⟩, ih hrest⟩

end Loops

end Reading

/-! ### The header -/

/-- The fields of a header, its counts and `z` apart. -/
structure SameHeader (h h' : Header) : Prop where
  id : h'.id = h.id
  qr : h'.qr = h.qr
  opcode : h'.opcode = h.opcode
  aa : h'.aa = h.aa
  tc : h'.tc = h.tc
  rd : h'.rd = h.rd
  ra : h'.ra = h.ra
  ad : h'.ad = h.ad
  cd : h'.cd = h.cd
  rcode : h'.rcode = h.rcode

/-- A header is read where it stands. -/
theorem header_of_standsAt {data : Bytes} {h : Header} (hat : StandsAt data 0 h.wire) :
    ∃ h', Header.fromBytes data = .ok h' ∧ h'.qdcount = h.qdcount ∧ h'.ancount = h.ancount ∧
      h'.nscount = h.nscount ∧ h'.arcount = h.arcount ∧
      (h.opcode.toNat < 16 → h.z = 0 → h.rcode.toNat < 16 → SameHeader h h') := by
  obtain ⟨hlen, _, _, hqd, han, hns, har⟩ := Header.standsAt_wire_iff.mp hat
  obtain ⟨h', hread, hfrom⟩ := header_of_le hlen
  refine ⟨h', hread, hfrom.qdcount.trans hqd.symm, hfrom.ancount.trans han.symm,
    hfrom.nscount.trans hns.symm, hfrom.arcount.trans har.symm, fun hopcode hz hrcode => ?_⟩
  have hrange : h.InRange := ⟨hopcode, by rw [hz]; decide, hrcode⟩
  rw [hrange.fromBytes_eq hat] at hread
  cases hread
  -- With `z` zero, no bit of it is taken for `ra`.
  have hra : (h.ra || decide (2 ≤ h.z.toNat)) = h.ra := by simp [hz]
  exact ⟨rfl, rfl, rfl, rfl, rfl, rfl, hra, rfl, rfl, rfl⟩

/-! ### A whole message -/

/-- What makes a message readable up to its RDATA: uncompressed names, RDATA
lengths that are right, and a size that fits. -/
structure Writable (m : Message) : Prop where
  qnames : ∀ q ∈ m.questions, WireName q.qname
  names : ∀ r ∈ m.records, WireName r.name
  rdlengths : ∀ r ∈ m.records, r.rdata.length = r.rdlength.toNat
  size : m.wire.length ≤ maxDnsMessageSize

section Whole

variable {m : Message}

/-- Every part of a message stands in its bytes. -/
theorem wire_standsAt (m : Message) :
    StandsAt m.wire 0 m.writtenHeader.wire ∧
      EachAt (fun q => q.wire.length) (fun off q => StandsAt m.wire off q.wire) 12 m.questions ∧
      EachAt (fun r => r.wire.length) (fun off r => StandsAt m.wire off r.wire) m.recordsStart
        m.records := by
  have hself := standsAt_self m.wire
  nth_rewrite 2 [Message.wire] at hself
  rw [standsAt_append, standsAt_append, List.length_append, Header.length_wire,
    length_flatMap_wire, standsAt_flatMap, standsAt_flatMap, Nat.zero_add, Nat.zero_add] at hself
  exact ⟨hself.1.1, hself.1.2, hself.2⟩

/-- The 16-bit counts do not wrap. -/
theorem Writable.counts (h : Writable m) :
    m.writtenHeader.qdcount.toNat = m.questions.length ∧
      m.writtenHeader.ancount.toNat = m.answers.length ∧
      m.writtenHeader.nscount.toNat = m.authorities.length ∧
      m.writtenHeader.arcount.toNat = m.additionals.length := by
  have hsize := h.size
  rw [Message.wire, List.length_append, List.length_append, length_flatMap_wire,
    length_flatMap_wire, maxDnsMessageSize] at hsize
  have hquestions : m.questions.length ≤ totalSize (fun q => q.wire.length) m.questions :=
    length_le_totalSize fun q _ => by rw [Question.length_wire]; omega
  have hrecords : m.records.length ≤ totalSize (fun r => r.wire.length) m.records :=
    length_le_totalSize fun r _ => by rw [ResourceRecord.length_wire]; omega
  have hlength : m.records.length =
      m.answers.length + m.authorities.length + m.additionals.length := by
    rw [Message.records, List.length_append, List.length_append]
  have hnat : ∀ n, n ≤ 8192 → (UInt16.ofNat n).toNat = n := fun n hn => by
    rw [UInt16.toNat_ofNat', Nat.mod_eq_of_lt (by omega)]
  exact ⟨hnat _ (by omega), hnat _ (by omega), hnat _ (by omega), hnat _ (by omega)⟩

theorem Writable.questions_read (h : Writable m) :
    parseItems (Question.fromBytes m.wire) m.questions.length 12 =
      .ok (m.questions, m.recordsStart) := by
  obtain ⟨questions, hread, hsame⟩ := parseItems_of_eachAt (R := Eq)
    ((wire_standsAt m).2.1.imp fun off q hq hat =>
      ⟨q, question_of_standsAt (h.qnames q hq) hat, rfl⟩)
  rw [List.forall₂_eq_eq_eq] at hsame
  rw [hread, Message.recordsStart, ← hsame]

/-- How the records end, once they stand where they were written. -/
theorem Writable.records_end (h : Writable m) :
    EachAt (fun r => r.wire.length) (fun off r => ResourceRecord.fromBytes m.wire off = (do
      let parsed ← parseRdata r.rtype r.rdata m.wire (r.rdataStart off)
      .ok (r.reread parsed, off + r.wire.length))) m.recordsStart m.records :=
  (wire_standsAt m).2.2.imp fun _ r hr hat =>
    record_of_standsAt (h.names r hr) (h.rdlengths r hr) hat

/-- Header and questions are read; what is left are the records. -/
theorem Writable.decode_eq (h : Writable m) : ∃ header, decodeMessage m.wire = (do
    let read₁ ← parseItems (ResourceRecord.fromBytes m.wire) m.answers.length m.recordsStart
    let read₂ ← parseItems (ResourceRecord.fromBytes m.wire) m.authorities.length read₁.2
    let read₃ ← parseItems (ResourceRecord.fromBytes m.wire) m.additionals.length read₂.2
    pure ⟨header, m.questions, read₁.1, read₂.1, read₃.1⟩) := by
  obtain ⟨header, hheader, hqd, han, hns, har, _⟩ := header_of_standsAt (wire_standsAt m).1
  obtain ⟨hqn, hann, hnsn, harn⟩ := h.counts
  refine ⟨header, ?_⟩
  rw [decodeMessage, Message.fromBytes, hheader, Outcome.ok_bind, hqd, han, hns, har, hqn, hann,
    hnsn, harn, h.questions_read]
  rfl

/-- The RDATA decides whether a record is read back. -/
theorem Writable.readsBack_iff_fromBytes (h : Writable m) :
    EachAt (fun r => r.wire.length) (ReadsBack m.wire) m.recordsStart m.records ↔
      EachAt (fun r => r.wire.length) (fun off r => ∃ a, ResourceRecord.fromBytes m.wire off =
        .ok (a, off + r.wire.length) ∧ SameRecord r a) m.recordsStart m.records := by
  constructor
  · intro heach
    refine (heach.and h.records_end).imp fun off r _ hr => ?_
    obtain ⟨⟨parsed, hparsed, hsame⟩, hread⟩ := hr
    exact ⟨_, by rw [hread, hparsed, Outcome.ok_bind], hsame⟩
  · intro heach
    refine (heach.and h.records_end).imp fun off r _ hr => ?_
    obtain ⟨⟨a, ha, hsame⟩, hread⟩ := hr
    rw [hread] at ha
    obtain ⟨parsed, hparsed, hpure⟩ := Outcome.bind_eq_ok.mp ha
    cases hpure
    exact ⟨parsed, hparsed, hsame⟩

/-- A record that is read ends where it was written to end. -/
theorem Writable.records_next (h : Writable m) :
    EachAt (fun r => r.wire.length) (fun off r => ∀ a next,
      ResourceRecord.fromBytes m.wire off = .ok (a, next) → next = off + r.wire.length)
      m.recordsStart m.records := by
  refine h.records_end.imp fun off r _ hread a next ha => ?_
  rw [hread] at ha
  obtain ⟨parsed, _, hpure⟩ := Outcome.bind_eq_ok.mp ha
  cases hpure
  rfl

/-- **A message is read back exactly when each RDATA is, at the offset where its
record starts.** -/
theorem decode_wire_iff (h : Writable m) :
    (∃ m', decodeMessage m.wire = .ok m' ∧ SameContent m m') ↔
      EachAt (fun r => r.wire.length) (ReadsBack m.wire) m.recordsStart m.records := by
  obtain ⟨header, hdecode⟩ := h.decode_eq
  have hsizes := h.records_next
  rw [h.readsBack_iff_fromBytes, hdecode, Message.records, eachAt_append, eachAt_append]
  rw [Message.records, eachAt_append, eachAt_append] at hsizes
  obtain ⟨⟨hsizes₁, hsizes₂⟩, hsizes₃⟩ := hsizes
  constructor
  · rintro ⟨m', hm', hsame⟩
    obtain ⟨⟨answers, next₁⟩, h₁, hm'⟩ := Outcome.bind_eq_ok.mp hm'
    obtain ⟨⟨authorities, next₂⟩, h₂, hm'⟩ := Outcome.bind_eq_ok.mp hm'
    obtain ⟨⟨additionals, next₃⟩, h₃, hm'⟩ := Outcome.bind_eq_ok.mp hm'
    cases hm'
    obtain ⟨rfl, heach₁⟩ := eachAt_of_parseItems hsizes₁ h₁ hsame.answers
    obtain ⟨rfl, heach₂⟩ := eachAt_of_parseItems hsizes₂ h₂ hsame.authorities
    rw [totalSize_append, ← Nat.add_assoc] at hsizes₃ ⊢
    obtain ⟨_, heach₃⟩ := eachAt_of_parseItems hsizes₃ h₃ hsame.additionals
    exact ⟨⟨heach₁, heach₂⟩, heach₃⟩
  · rintro ⟨⟨heach₁, heach₂⟩, heach₃⟩
    rw [totalSize_append, ← Nat.add_assoc] at heach₃
    obtain ⟨answers, h₁, hsame₁⟩ := parseItems_of_eachAt heach₁
    obtain ⟨authorities, h₂, hsame₂⟩ := parseItems_of_eachAt heach₂
    obtain ⟨additionals, h₃, hsame₃⟩ := parseItems_of_eachAt heach₃
    refine ⟨⟨header, m.questions, answers, authorities, additionals⟩, ?_, rfl, hsame₁, hsame₂,
      hsame₃⟩
    rw [h₁, Outcome.ok_bind]
    dsimp only
    rw [h₂, Outcome.ok_bind]
    dsimp only
    rw [h₃]
    rfl

end Whole

/-! ### Well-formed messages -/

structure WellFormedRecord (r : ResourceRecord) : Prop where
  name : WireName r.name
  rdlength : r.rdlength.toNat = r.rdata.length
  layout : ∃ p, RdataLayout r.rtype r.rdata p

structure WellFormed (m : Message) : Prop where
  qnames : ∀ q ∈ m.questions, WireName q.qname
  records : ∀ r ∈ m.records, WellFormedRecord r
  opcode : m.header.opcode.toNat < 16
  rcode : m.header.rcode.toNat < 16
  z : m.header.z = 0

/-- The counts in the header are the lengths of the sections. -/
structure CountsRight (m : Message) : Prop where
  qdcount : m.header.qdcount.toNat = m.questions.length
  ancount : m.header.ancount.toNat = m.answers.length
  nscount : m.header.nscount.toNat = m.authorities.length
  arcount : m.header.arcount.toNat = m.additionals.length

section RoundTrip

variable {m : Message} {data : Bytes} {off : Nat}

theorem WellFormed.writable (h : WellFormed m) (hsize : m.wire.length ≤ maxDnsMessageSize) :
    Writable m where
  qnames := h.qnames
  names r hr := (h.records r hr).name
  rdlengths r hr := (h.records r hr).rdlength.symm
  size := hsize

/-- RDATA of a layout is stored again as it was. -/
theorem readsBack_of_layout {r : ResourceRecord} {p : RData}
    (hlayout : RdataLayout r.rtype r.rdata p) (hlen : r.rdata.length = r.rdlength.toNat)
    (hat : StandsAt data off r.wire) : ReadsBack data off r := by
  refine ⟨some p, parseRdata_of_layout hlayout (rdata_standsAt hat), rfl, rfl, rfl, rfl, ?_, ?_⟩
  · change UInt16.ofNat (decompressedRdata p).length = r.rdlength
    rw [hlayout.decompressedRdata_eq, hlen, UInt16.ofNat_toNat]
  · exact hlayout.decompressedRdata_eq

theorem decodeMessage_header (h : decodeMessage data = .ok m) :
    Header.fromBytes data = .ok m.header := by
  obtain ⟨_, _, _, _, hheader, _⟩ := decodeMessage_eq_ok h
  exact hheader

/-- **A well-formed message is written exactly when it fits, and then read back
as it was**, with counts that are right. -/
theorem encode_decode_roundtrip (m : Message) (h : WellFormed m) :
    ((∃ b, encodeMessage m = .ok b) ↔ m.wireSize ≤ 8192) ∧
      ∀ b, encodeMessage m = .ok b → ∃ m', decodeMessage b = .ok m' ∧ SameContent m m' ∧
        SameHeader m.header m'.header ∧ CountsRight m' := by
  have hrdlengths : ∀ r ∈ m.records, r.rdata.length = r.rdlength.toNat := fun r hr =>
    (h.records r hr).rdlength.symm
  constructor
  · constructor
    · rintro ⟨b, hb⟩
      exact m.length_wire ▸ (encodeMessage_eq_ok.mp hb).1
    · intro hsize
      exact ⟨m.wire, encodeMessage_eq_ok.mpr ⟨m.length_wire ▸ hsize, hrdlengths, rfl⟩⟩
  · intro b hb
    obtain ⟨hsize, _, rfl⟩ := encodeMessage_eq_ok.mp hb
    have hwritable := h.writable hsize
    have heach : EachAt (fun r => r.wire.length) (ReadsBack m.wire) m.recordsStart m.records := by
      refine (wire_standsAt m).2.2.imp fun off r hr hat => ?_
      obtain ⟨p, hp⟩ := (h.records r hr).layout
      exact readsBack_of_layout hp (hrdlengths r hr) hat
    obtain ⟨m', hm', hsame⟩ := (decode_wire_iff hwritable).mpr heach
    obtain ⟨header, hheader, hqd, han, hns, har, hfields⟩ :=
      header_of_standsAt (wire_standsAt m).1
    obtain rfl : header = m'.header :=
      Outcome.ok.inj (hheader.symm.trans (decodeMessage_header hm'))
    obtain ⟨hqn, hann, hnsn, harn⟩ := hwritable.counts
    obtain ⟨hid, hqr, hop, haa, htc, hrd, hra, had, hcd, hrc⟩ := hfields h.opcode h.z h.rcode
    refine ⟨m', hm', hsame, ⟨hid, hqr, hop, haa, htc, hrd, hra, had, hcd, hrc⟩, ?_, ?_, ?_, ?_⟩
    · rw [hqd, hqn, hsame.questions]
    · rw [han, hann, hsame.answers.length_eq]
    · rw [hns, hnsn, hsame.authorities.length_eq]
    · rw [har, harn, hsame.additionals.length_eq]

end RoundTrip

/-- A mail exchanger for `a`, with an OPT record. -/
def mxMessage : Message where
  header := { Header.newQuery 7 true with qr := true, ra := true }
  questions := [⟨[1, 97, 0], 15, 1⟩]
  answers := [⟨[1, 97, 0], 15, 1, 60, 5, [0, 10, 1, 98, 0], none⟩]
  authorities := []
  additionals := [⟨[0], 41, 4096, 0, 0, [], none⟩]

theorem encode_decode_roundtrip_mxMessage :
    ∃ b m', encodeMessage mxMessage = .ok b ∧ decodeMessage b = .ok m' ∧
      SameContent mxMessage m' ∧ SameHeader mxMessage.header m'.header ∧ CountsRight m' := by
  have hroot : WireName [0] := ⟨[], labelsOk_nil, rfl⟩
  have ha : WireName [1, 97, 0] := ⟨[[97]], by simp [LabelsOk], rfl⟩
  have hb : WireName [1, 98, 0] := ⟨[[98]], by simp [LabelsOk], rfl⟩
  have hwf : WellFormed mxMessage := by
    refine ⟨?_, ?_, by decide, by decide, by decide⟩
    · simpa [mxMessage] using ha
    · simp only [mxMessage, Message.records, List.append_nil, List.cons_append, List.nil_append,
        List.forall_mem_cons]
      refine ⟨⟨ha, rfl, _, @RdataLayout.mx 10 _ hb⟩, ⟨hroot, rfl, _, .other (by decide) ?_⟩,
        fun r hr => absurd hr List.not_mem_nil⟩
      exact Nat.zero_le _
  obtain ⟨hfits, hback⟩ := encode_decode_roundtrip mxMessage hwf
  obtain ⟨b, hb⟩ := hfits.mpr (by decide)
  obtain ⟨m', hm'⟩ := hback b hb
  exact ⟨b, m', hb, hm'⟩

/-! ### Messages that were decoded before -/

/-- No RDATA that was kept unparsed spells names or a cycle at its new place. -/
def RawStaysRaw (m : Message) (b : Bytes) : Prop :=
  EachAt (fun r => r.wire.length) (fun off r => r.parsed = none →
    ¬ ReadsNames b r.rtype r.rdata.length (r.rdataStart off) ∧
      ¬ RdataCycles b r.rtype r.rdata.length (r.rdataStart off)) m.recordsStart m.records

section Decoded

variable {b : Bytes} {m : Message} {off next : Nat}

theorem question_qname {q : Question} (h : Question.fromBytes b off = .ok (q, next)) :
    WireName q.qname := by
  obtain ⟨⟨qname, e⟩, hname, h⟩ := Outcome.bind_eq_ok.mp h
  dsimp only at h
  split at h
  · cases h
  obtain ⟨qtype, _, h⟩ := Outcome.bind_eq_ok.mp h
  obtain ⟨qclass, _, h⟩ := Outcome.bind_eq_ok.mp h
  cases h
  exact (decodeDomainName_eq_ok.mp hname).wireName

/-- What the parser builds: the RDATA is a layout, or it stands in the message
and its parser rejects it there. -/
theorem decoded_record {r : ResourceRecord} (h : ResourceRecord.fromBytes b off = .ok (r, next)) :
    WireName r.name ∧
      ((∃ p, r.parsed = some p ∧ RdataLayout r.rtype r.rdata p) ∨
        r.parsed = none ∧ ∃ start, StandsAt b start r.rdata ∧
          parseRdata r.rtype r.rdata b start = .ok none) := by
  obtain ⟨n, e, parsed, hn, hroom, hparsed, rfl, _⟩ := record_eq_ok.mp h
  refine ⟨hn.wireName, ?_⟩
  cases parsed with
  | some p => exact .inl ⟨p, rfl, layout_of_parseRdata hparsed⟩
  | none => exact .inr ⟨rfl, e + 10, List.take_prefix _ _, hparsed⟩

theorem decoded_message (h : decodeMessage b = .ok m) :
    (∀ q ∈ m.questions, WireName q.qname) ∧
      ∀ r ∈ m.records, ∃ off next, ResourceRecord.fromBytes b off = .ok (r, next) := by
  obtain ⟨_, _, _, _, _, hquestions, hanswers, hauthorities, hadditionals⟩ :=
    decodeMessage_eq_ok h
  constructor
  · intro q hq
    obtain ⟨start, stop, hread⟩ := mem_of_parseItems hquestions q hq
    exact question_qname hread
  · intro r hr
    simp only [Message.records, List.mem_append] at hr
    rcases hr with (hr | hr) | hr
    · exact mem_of_parseItems hanswers r hr
    · exact mem_of_parseItems hauthorities r hr
    · exact mem_of_parseItems hadditionals r hr

/-- A record that was decoded from `b` comes back from where it was written
exactly when its RDATA was parsed, or is rejected there too. -/
theorem readsBack_iff {data : Bytes} {r : ResourceRecord} {start : Nat}
    (hr : ResourceRecord.fromBytes b off = .ok (r, next))
    (hlen : r.rdata.length = r.rdlength.toNat) (hat : StandsAt data start r.wire) :
    ReadsBack data start r ↔ (r.parsed = none →
      ¬ ReadsNames data r.rtype r.rdata.length (r.rdataStart start) ∧
        ¬ RdataCycles data r.rtype r.rdata.length (r.rdataStart start)) := by
  rcases (decoded_record hr).2 with ⟨p, hp, hlayout⟩ | ⟨hnone, old, hold, hrejected⟩
  · simp [hp, readsBack_of_layout hlayout hlen hat]
  rw [← rejected_again_iff hrejected]
  constructor
  · rintro ⟨parsed, hparsed, hsame⟩ _
    cases parsed with
    | none => exact hparsed
    | some p =>
        -- Bytes that stand for themselves would have been parsed in the first place.
        have hlayout := layout_of_parseRdata hparsed
        rw [show decompressedRdata p = r.rdata from hsame.rdata] at hlayout
        rw [parseRdata_of_layout hlayout hold] at hrejected
        cases hrejected
  · exact fun h => ⟨none, h hnone, rfl, rfl, rfl, rfl, rfl, rfl⟩

end Decoded

/-- **A decoded message is re-serialised safely exactly when every RDATA that was
kept unparsed spells neither names nor a cycle at its new place.** -/
theorem reencoded_iff (b b' : Bytes) (m : Message) (hdecode : decodeMessage b = .ok m)
    (hencode : encodeMessage m = .ok b') :
    (∃ m', decodeMessage b' = .ok m' ∧ SameContent m m') ↔ RawStaysRaw m b' := by
  obtain ⟨hsize, hrdlengths, rfl⟩ := encodeMessage_eq_ok.mp hencode
  obtain ⟨hquestions, hrecords⟩ := decoded_message hdecode
  have hwritable : Writable m := by
    refine ⟨hquestions, fun r hr => ?_, hrdlengths, hsize⟩
    obtain ⟨off, next, hread⟩ := hrecords r hr
    exact (decoded_record hread).1
  rw [decode_wire_iff hwritable, RawStaysRaw]
  have hat := (wire_standsAt m).2.2
  constructor
  · intro heach
    refine (heach.and hat).imp fun off r hr hboth => ?_
    obtain ⟨start, stop, hread⟩ := hrecords r hr
    exact (readsBack_iff hread (hrdlengths r hr) hboth.2).mp hboth.1
  · intro heach
    refine (heach.and hat).imp fun off r hr hboth => ?_
    obtain ⟨start, stop, hread⟩ := hrecords r hr
    exact (readsBack_iff hread (hrdlengths r hr) hboth.2).mpr hboth.1

/-- A response for `a` with one record and an OPT record. The owner name of the
record is a pointer to the question. -/
def pointedAnswer (rtype : UInt8) (rdata : Bytes) : Bytes :=
  [0, 7, 0x80, 0, 0, 1, 0, 1, 0, 0, 0, 1] ++ [1, 97, 0, 0, rtype, 0, 1] ++
    [0xc0, 12, 0, rtype, 0, 1, 0, 0, 0, 60, 0, UInt8.ofNat rdata.length] ++ rdata ++
    [0, 0, 41, 16, 0, 0, 0, 0, 0, 0, 0]

/-- What it is written as once decoded. -/
def writtenAnswer (rtype : UInt8) (rdata : Bytes) : Bytes :=
  [0, 7, 0x80, 0, 0, 1, 0, 1, 0, 0, 0, 1] ++ [1, 97, 0, 0, rtype, 0, 1] ++
    [1, 97, 0, 0, rtype, 0, 1, 0, 0, 0, 60, 0, UInt8.ofNat rdata.length] ++ rdata ++
    [0, 0, 41, 16, 0, 0, 0, 0, 0, 0, 0]

def decodedAnswer (rtype : UInt16) (rdata : Bytes) (parsed : Option RData) : Message where
  header := { Header.newQuery 7 false with qr := true, qdcount := 1, ancount := 1, arcount := 1 }
  questions := [⟨[1, 97, 0], rtype, 1⟩]
  answers := [⟨[1, 97, 0], rtype, 1, 60, UInt16.ofNat rdata.length, rdata, parsed⟩]
  authorities := []
  additionals := [⟨[0], 41, 4096, 0, 0, [], some (.unknown [])⟩]

/-- An address of three bytes is rejected at every place. -/
theorem reencoded_shortAddress :
    ∃ m', decodeMessage (writtenAnswer 1 [192, 0, 2]) = .ok m' ∧
      SameContent (decodedAnswer 1 [192, 0, 2] none) m' := by
  refine (reencoded_iff (pointedAnswer 1 [192, 0, 2]) _ (decodedAnswer 1 [192, 0, 2] none)
    (by decide +kernel) (by decide +kernel)).mpr ?_
  refine ⟨fun _ => ?_, fun hparsed => ?_, trivial⟩
  · rw [readsNames_iff, rdataCycles_iff]
    simp
  · cases hparsed

/-- A pointer to its own place is rejected. Written again behind a longer owner
name, it points to the byte before it, and the record becomes another one. -/
theorem stale_pointer_changes_record :
    decodeMessage (pointedAnswer 2 [0xc0, 31]) = .ok (decodedAnswer 2 [0xc0, 31] none) ∧
      encodeMessage (decodedAnswer 2 [0xc0, 31] none) = .ok (writtenAnswer 2 [0xc0, 31]) ∧
      ¬ ∃ m', decodeMessage (writtenAnswer 2 [0xc0, 31]) = .ok m' ∧
        SameContent (decodedAnswer 2 [0xc0, 31] none) m' := by
  refine ⟨by decide +kernel, by decide +kernel, ?_⟩
  have hread : decodeMessage (writtenAnswer 2 [0xc0, 31]) =
      .ok (decodedAnswer 2 [2, 0xc0, 31, 0] (some (.ns [2, 0xc0, 31, 0]))) := by decide +kernel
  rintro ⟨m', hm', hsame⟩
  rw [hread] at hm'
  cases hm'
  cases hsame.answers with
  | cons hrecord _ => exact absurd hrecord.rdata (by decide)

end FastDns.Dns
