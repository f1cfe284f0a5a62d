/-
How long an RDATA gets when its names are written out.

`ResourceRecord::from_bytes` stores parsed RDATA without compression pointers and
casts its new length to 16 bits. The decoder does not bound the length of a name, and a
pointer may lead to any place before the name, so a short RDATA can stand
for a long one. `Expands` reads the written-out size off the bytes of the
message, and `lengths_agree_iff` says that the cast loses nothing exactly if that
size fits.
-/

import FastDns.Dns.RoundTrip

namespace FastDns.Dns

open FastDns.Lib

/-! ### The size of an RDATA with its names written out -/

/-- The RDATA of `rdlen` bytes at `off` has names inside, and takes `size` bytes
when they are written out. -/
inductive Expands (msg : Bytes) (rtype : UInt16) (rdlen off : Nat) : Nat → Prop where
  | whole {n : Bytes} {next : Nat} : rtype = 5 ∨ rtype = 2 ∨ rtype = 12 → 0 < rdlen →
      NameAt msg off off n next → Expands msg rtype rdlen off n.length
  | mx {n : Bytes} {next : Nat} : rtype = 15 → 3 ≤ rdlen →
      NameAt msg (off + 2) (off + 2) n next → Expands msg rtype rdlen off (2 + n.length)
  | soa {mname rname : Bytes} {e next : Nat} : rtype = 6 → NameAt msg off off mname e →
      NameAt msg e e rname next → next + 20 ≤ off + rdlen →
      Expands msg rtype rdlen off (mname.length + rname.length + 20)
  | srv {n : Bytes} {next : Nat} : rtype = 33 → 7 ≤ rdlen →
      NameAt msg (off + 6) (off + 6) n next → Expands msg rtype rdlen off (6 + n.length)
  | rrsig {n : Bytes} {next : Nat} : rtype = 46 → 18 ≤ rdlen →
      NameAt msg (off + 18) (off + 18) n next → next ≤ off + rdlen →
      Expands msg rtype rdlen off (18 + n.length + (off + rdlen - next))
  | nsec {n : Bytes} {next : Nat} : rtype = 47 → NameAt msg off off n next →
      next ≤ off + rdlen → Expands msg rtype rdlen off (n.length + (off + rdlen - next))

/-- The RDATA of the record whose owner name ends at `e` fits into 65535 bytes with
its names written out. -/
def ExpansionFits (data : Bytes) (e : Nat) : Prop :=
  ∀ size, Expands data (u16At data e) (rdlenAt data e) (e + 10) size → size ≤ 65535

section Size

variable {rdata msg : Bytes} {rtype : UInt16} {rdlen off size : Nat} {p : RData}

theorem Expands.unique {size' : Nat} (h : Expands msg rtype rdlen off size)
    (h' : Expands msg rtype rdlen off size') : size = size' := by
  cases h with
  | whole ht _ hn =>
      rcases ht with rfl | rfl | rfl <;>
        (cases h' with
        | whole _ _ hn' => rw [(hn.unique hn').1]
        | _ => contradiction)
  | mx ht _ hn =>
      subst ht
      cases h' with
      | mx _ _ hn' => rw [(hn.unique hn').1]
      | whole ht' => simp at ht'
      | _ => contradiction
  | soa ht hm hr _ =>
      subst ht
      cases h' with
      | soa _ hm' hr' _ =>
          obtain ⟨rfl, rfl⟩ := hm.unique hm'
          rw [(hr.unique hr').1]
      | whole ht' => simp at ht'
      | _ => contradiction
  | srv ht _ hn =>
      subst ht
      cases h' with
      | srv _ _ hn' => rw [(hn.unique hn').1]
      | whole ht' => simp at ht'
      | _ => contradiction
  | rrsig ht _ hn _ =>
      subst ht
      cases h' with
      | rrsig _ _ hn' _ =>
          obtain ⟨rfl, rfl⟩ := hn.unique hn'
          rfl
      | whole ht' => simp at ht'
      | _ => contradiction
  | nsec ht hn _ =>
      subst ht
      cases h' with
      | nsec _ hn' _ =>
          obtain ⟨rfl, rfl⟩ := hn.unique hn'
          rfl
      | whole ht' => simp at ht'
      | _ => contradiction

/-- Where an RDATA can be written out, its parser finds the names. -/
theorem Expands.readsNames (h : Expands msg rtype rdlen off size) :
    rtype ∈ nameTypes ∧ ReadsNames msg rtype rdlen off := by
  cases h with
  | whole ht hl hn => exact ⟨by rcases ht with rfl | rfl | rfl <;> decide, .whole ht hl hn⟩
  | mx ht hl hn => exact ⟨ht ▸ by decide, .mx ht hl hn⟩
  | soa ht hm hr hle => exact ⟨ht ▸ by decide, .soa ht hm hr hle⟩
  | srv ht hl hn => exact ⟨ht ▸ by decide, .srv ht hl hn⟩
  | rrsig ht hl hn hle => exact ⟨ht ▸ by decide, .rrsig ht hl hn hle⟩
  | nsec ht hn _ => exact ⟨ht ▸ by decide, .nsec ht hn⟩

/-- What a parser writes back has the size read off the message, or its type has no
names and it is no longer than what the parser has read. -/
theorem ReadsAs.expansion (h : ReadsAs rdata msg off rtype p) :
    Expands msg rtype rdata.length off (decompressedRdata p).length ∨
      rtype ∉ nameTypes ∧ (decompressedRdata p).length ≤ rdata.length := by
  cases h with
  | a ip hlen => exact .inr ⟨by decide, hlen ▸ Nat.le_refl 4⟩
  | aaaa ip hlen => exact .inr ⟨by decide, by rw [decompressedRdata, ip.size, hlen]⟩
  | cname hlen hn | ns hlen hn | ptr hlen hn => exact .inl (.whole (by decide) hlen hn)
  | mx hlen hn =>
      left
      rw [decompressedRdata, List.length_append, length_u16ToBeBytes]
      exact .mx rfl hlen hn
  | @soa s e next hm hr hle =>
      left
      have hlength : (decompressedRdata (.soa s)).length = s.mname.length + s.rname.length + 20 := by
        simp only [decompressedRdata, List.length_append, length_u32ToBeBytes]
      rw [hlength]
      exact .soa rfl hm hr hle
  | txt _ hle => exact .inr ⟨by decide, hle⟩
  | @srv priority weight port n next hlen hn =>
      left
      have hlength : (decompressedRdata (.srv priority weight port n)).length = 6 + n.length := by
        simp only [decompressedRdata, List.length_append, length_u16ToBeBytes]
      rw [hlength]
      exact .srv rfl hlen hn
  | @rrsig r next hlen hn hle hsig =>
      left
      have hlength : (decompressedRdata (.rrsig r)).length =
          18 + r.signerName.length + (off + rdata.length - next) := by
        have := hn.bounds
        simp only [decompressedRdata, List.length_append, length_u16ToBeBytes, length_u32ToBeBytes,
          List.length_cons, List.length_nil, hsig, List.length_drop]
        omega
      rw [hlength]
      exact .rrsig rfl hlen hn hle
  | @dnskey k hlen hkey =>
      right
      constructor
      · decide
      · simp only [decompressedRdata, List.length_append, length_u16ToBeBytes, List.length_cons,
          List.length_nil, hkey, List.length_drop]
        omega
  | @ds d hlen hdigest =>
      right
      constructor
      · decide
      · simp only [decompressedRdata, List.length_append, length_u16ToBeBytes, List.length_cons,
          List.length_nil, hdigest, List.length_drop]
        omega
  | @nsec n next hn hle =>
      left
      have hrest : rdata.length - (next - off) = off + rdata.length - next := by
        have := hn.bounds
        omega
      rw [decompressedRdata, List.length_append, List.length_drop, hrest]
      exact .nsec rfl hn hle
  | other htype _ =>
      right
      constructor
      · intro hmem
        simp only [nameTypes, knownTypes, List.mem_cons, List.not_mem_nil, or_false] at hmem htype
        tauto
      · exact Nat.le_refl _

end Size

/-! ### The length field of a decoded record -/

section Length

variable {data : Bytes} {off next e : Nat} {n : Bytes} {r : ResourceRecord}

theorem ofNat_toNat_eq_iff {k : Nat} : (UInt16.ofNat k).toNat = k ↔ k ≤ 65535 := by
  rw [UInt16.toNat_ofNat']
  omega

/-- **The length field of a decoded record is right exactly if the RDATA with its
names written out fits into 65535 bytes.** -/
theorem lengths_agree_iff (h : ResourceRecord.fromBytes data off = .ok (r, next))
    (hn : NameAt data off off n e) : r.rdlength.toNat = r.rdata.length ↔ ExpansionFits data e := by
  obtain ⟨n', e', parsed, hn', hroom, hparsed, rfl, _⟩ := record_eq_ok.mp h
  obtain ⟨rfl, rfl⟩ := hn.unique hn'
  have hraw := length_rawRdataAt hroom
  cases parsed with
  | none =>
      constructor
      · intro _ size hsize
        obtain ⟨htype, hreads⟩ := hsize.readsNames
        rw [← hraw] at hreads
        exact absurd hreads ((parseRdata_none_iff htype).mp hparsed).1
      · intro _
        exact hraw.symm
  | some p =>
      change (UInt16.ofNat (decompressedRdata p).length).toNat = (decompressedRdata p).length ↔ _
      rw [ofNat_toNat_eq_iff]
      have hsize := (readsAs_of_parseRdata hparsed).expansion
      rw [hraw] at hsize
      rcases hsize with hexpands | ⟨htype, hle⟩
      · constructor
        · intro hfits size hsize
          exact hsize.unique hexpands ▸ hfits
        · exact fun hfits => hfits _ hexpands
      · constructor
        · exact fun _ size hsize => absurd hsize.readsNames.1 htype
        · intro _
          have := (u16At data (e + 8)).toNat_lt
          rw [rdlenAt] at hle
          omega

/-- A record that disagrees with its own length field cannot be written into a
buffer that has room for it. -/
theorem toBytes_ne_panic_iff (r : ResourceRecord) :
    (∀ room, r.toBytes room ≠ .panic) ↔ r.rdlength.toNat = r.rdata.length := by
  constructor
  · intro h
    by_contra hne
    have hroom : ¬ r.name.length + 10 + r.rdlength.toNat < r.name.length + 10 + r.rdlength.toNat :=
      Nat.lt_irrefl _
    exact h _ ((if_neg hroom).trans (if_pos (Ne.symm hne)))
  · intro heq room
    rw [ResourceRecord.toBytes]
    split
    · exact fun h => by cases h
    · rw [if_neg (not_not.mpr heq.symm)]
      exact fun h => by cases h

end Length

/-! ### A short message with a long name

Its first record is of a private type; the RDATA is a field of the byte 63, then
pointers into that field, then a root label. From any even place at the start of
the field, 33 labels of 63 bytes lead to a pointer, and the pointer leads to the next
even place. -/

def longField : Bytes := List.replicate 2112 63

def longPointers : Bytes := (List.range 31).flatMap fun j => [0xc0, UInt8.ofNat (25 + 2 * j)]

def privateRecord : ResourceRecord :=
  ⟨[0], 65280, 1, 60, 2175, longField ++ longPointers ++ [0], none⟩

/-- An NS record with a pointer to the field. -/
def pointerRecord : ResourceRecord := ⟨[0], 2, 1, 60, 2, [0xc0, 23], none⟩

def longHeader : Header :=
  ⟨1, true, 0, false, false, false, false, 0, false, false, 0, 0, 2, 0, 0⟩

/-- Both records, after a header that announces two answers. -/
def longMessage : Bytes :=
  [0, 1, 128, 0, 0, 0, 0, 2, 0, 0, 0, 0] ++ (privateRecord.wire ++ pointerRecord.wire)

section LongName

variable {data : Bytes} {offset p next : Nat} {n : Bytes}

/-- Labels of 63 bytes, one after another. -/
theorem nameAt_labels {k : Nat} (hbytes : ∀ i < k, data[p + 64 * i]? = some 63)
    (hroom : p + 64 * k ≤ data.length) (hn : NameAt data offset (p + 64 * k) n next) :
    ∃ m, NameAt data offset p m next ∧ m.length = 64 * k + n.length := by
  induction k generalizing p with
  | zero => exact ⟨n, hn, by simp⟩
  | succ k ih =>
      have hrest : ∀ i < k, data[p + 64 + 64 * i]? = some 63 := by
        intro i hi
        have hbyte := hbytes (i + 1) (by omega)
        rwa [show p + 64 * (i + 1) = p + 64 + 64 * i by omega] at hbyte
      rw [show p + 64 * (k + 1) = p + 64 + 64 * k by omega] at hn hroom
      obtain ⟨m, hm, hlen⟩ := ih hrest hroom hn
      have hfirst := hbytes 0 (by omega)
      rw [Nat.mul_zero, Nat.add_zero] at hfirst
      refine ⟨_, .label hfirst (by decide) (by decide) ?_ hm, ?_⟩
      · change p + 1 + 63 ≤ data.length
        omega
      · change (63 :: (data.drop (p + 1)).take 63 ++ m).length = _
        rw [List.length_append, List.length_cons, List.length_take, List.length_drop, hlen]
        omega

theorem length_longField : longField.length = 2112 := List.length_replicate ..

theorem length_longPointers : longPointers.length = 62 := by decide

theorem length_privateRecord : privateRecord.wire.length = 2186 := by
  rw [ResourceRecord.length_wire]
  simp only [privateRecord, List.length_append, length_longField, length_longPointers,
    List.length_singleton]

theorem length_longMessage : longMessage.length = 2211 := by
  rw [longMessage, List.length_append, List.length_append, length_privateRecord]
  rfl

/-- Where the parts of the message stand. -/
theorem longMessage_stands :
    StandsAt longMessage 12 privateRecord.wire ∧ StandsAt longMessage 2198 pointerRecord.wire := by
  have hrecords := (standsAt_append.mp (standsAt_self longMessage)).2
  obtain ⟨hprivate, hpointer⟩ := standsAt_append.mp hrecords
  rw [length_privateRecord] at hpointer
  exact ⟨hprivate, hpointer⟩

theorem longMessage_rdata :
    StandsAt longMessage 23 longField ∧ StandsAt longMessage 2135 longPointers ∧
      StandsAt longMessage 2197 [0] := by
  have hrdata : StandsAt longMessage 23 (longField ++ longPointers ++ [0]) :=
    rdata_standsAt longMessage_stands.1
  obtain ⟨hfront, hroot⟩ := standsAt_append.mp hrdata
  obtain ⟨hfield, hpointers⟩ := standsAt_append.mp hfront
  have hlen : (longField ++ longPointers).length = 2174 := by
    rw [List.length_append, length_longField, length_longPointers]
  rw [hlen] at hroot
  rw [length_longField] at hpointers
  exact ⟨hfield, hpointers, hroot⟩

/-- The bytes of the field, and the pointers behind it. -/
theorem longMessage_bytes :
    (∀ i < 2112, longMessage[23 + i]? = some 63) ∧
      ∀ j < 31, longMessage[2135 + 2 * j]? = some 0xc0 ∧
        longMessage[2135 + 2 * j + 1]? = some (UInt8.ofNat (25 + 2 * j)) := by
  obtain ⟨hfield, hpointers, _⟩ := longMessage_rdata
  constructor
  · intro i hi
    rw [hfield.getElem? (by rw [length_longField]; exact hi), longField,
      List.getElem?_replicate, if_pos hi]
  · intro j hj
    have hlow : ∀ j < 31, longPointers[2 * j]? = some 0xc0 ∧
        longPointers[2 * j + 1]? = some (UInt8.ofNat (25 + 2 * j)) := by decide
    have hlen := length_longPointers
    rw [hpointers.getElem? (by omega), Nat.add_assoc, hpointers.getElem? (by omega)]
    exact hlow j hj

/-- From the place `2 * j` of the field the labels lead to the bytes behind it. -/
theorem longMessage_labels {j : Nat} (hj : j ≤ 31)
    (hn : NameAt longMessage 2209 (2135 + 2 * j) n next) :
    ∃ m, NameAt longMessage 2209 (23 + 2 * j) m next ∧ m.length = 2112 + n.length := by
  have hlabels : ∀ k < 33, longMessage[23 + 2 * j + 64 * k]? = some 63 := by
    intro k hk
    rw [Nat.add_assoc]
    exact longMessage_bytes.1 _ (by omega)
  have hroom : 23 + 2 * j + 64 * 33 ≤ longMessage.length := by
    rw [length_longMessage]
    omega
  rw [show 2135 + 2 * j = 23 + 2 * j + 64 * 33 by omega] at hn
  exact nameAt_labels hlabels hroom hn

/-- With `i` pointers to go, the name has 33 labels more than at the next pointer. -/
theorem longMessage_name {i j : Nat} (h : i + j = 31) :
    ∃ n next, NameAt longMessage 2209 (23 + 2 * j) n next ∧ n.length = 2112 * (i + 1) + 1 := by
  induction i generalizing j with
  | zero =>
      obtain rfl : j = 31 := by omega
      have hroot := (standsAt_cons.mp longMessage_rdata.2.2).1
      obtain ⟨m, hm, hlen⟩ := longMessage_labels (Nat.le_refl 31) (.root hroot)
      exact ⟨m, _, hm, hlen⟩
  | succ i ih =>
      obtain ⟨n, next, hn, hlen⟩ := ih (j := j + 1) (by omega)
      obtain ⟨hbyte, hlow⟩ := longMessage_bytes.2 j (by omega)
      have htarget : ∀ j < 31, pointerTarget 0xc0 (UInt8.ofNat (25 + 2 * j)) = 23 + 2 * (j + 1) := by
        decide
      have hpointer := NameAt.pointer hbyte (by decide) hlow
        (by rw [htarget j (by omega)]; omega) (htarget j (by omega) ▸ hn)
      obtain ⟨m, hm, hmlen⟩ := longMessage_labels (by omega) hpointer
      exact ⟨m, _, hm, by omega⟩

theorem wireName_root : WireName [0] := ⟨[], labelsOk_nil, rfl⟩

/-- **The NS record of the message has the length field 2049 and 67585 bytes of
RDATA.** -/
theorem longMessage_record :
    ∃ r, ResourceRecord.fromBytes longMessage 2198 = .ok (r, 2211) ∧ r.name = [0] ∧
      r.rdlength = 2049 ∧ r.rdata.length = 67585 := by
  obtain ⟨n, _, hn, hlen⟩ := longMessage_name (i := 31) (j := 0) rfl
  have hrdata : StandsAt longMessage 2209 [0xc0, 23] := rdata_standsAt longMessage_stands.2
  obtain ⟨hbyte, hrest⟩ := standsAt_cons.mp hrdata
  have hname := NameAt.pointer hbyte (by decide) (standsAt_cons.mp hrest).1 (by decide) hn
  have hparsed : parseRdata 2 [0xc0, 23] longMessage 2209 = .ok (some (.ns n)) := by
    change parseNameRdata [0xc0, 23] longMessage 2209 .ns = _
    simp [parseNameRdata, decodeDomainName_eq_ok.mpr hname]
  have hread := record_of_standsAt (r := pointerRecord) wireName_root rfl longMessage_stands.2
  refine ⟨pointerRecord.reread (some (.ns n)), ?_, rfl, ?_, ?_⟩
  · rw [hread]
    change (parseRdata 2 [0xc0, 23] longMessage 2209 >>= _) = _
    rw [hparsed]
    rfl
  · change UInt16.ofNat n.length = 2049
    rw [hlen]
    rfl
  · exact hlen

/-- The message is one the decoder accepts, with that record among the answers. -/
theorem longMessage_decoded :
    ∃ m r, decodeMessage longMessage = .ok m ∧ r ∈ m.answers ∧
      ResourceRecord.fromBytes longMessage 2198 = .ok (r, 2211) ∧ r.name = [0] ∧
      r.rdlength = 2049 ∧ r.rdata.length = 67585 := by
  obtain ⟨r, hr, hfields⟩ := longMessage_record
  have hheader : Header.fromBytes longMessage = .ok longHeader := by decide +kernel
  have hlen : privateRecord.rdata.length = privateRecord.rdlength.toNat := by
    simp only [privateRecord, List.length_append, length_longField, length_longPointers]
    rfl
  have hprivate := record_of_standsAt (r := privateRecord) wireName_root hlen longMessage_stands.1
  rw [length_privateRecord] at hprivate
  have hlayout : RdataLayout 65280 privateRecord.rdata (.unknown privateRecord.rdata) :=
    .other (by decide) (by rw [hlen]; decide)
  have hparsed := parseRdata_of_layout hlayout (rdata_standsAt longMessage_stands.1)
  have hfirst : ResourceRecord.fromBytes longMessage 12 =
      .ok (privateRecord.reread (some (.unknown privateRecord.rdata)), 2198) := by
    rw [hprivate]
    change (parseRdata 65280 privateRecord.rdata longMessage _ >>= _) = _
    rw [hparsed]
    rfl
  have hanswers : parseItems (ResourceRecord.fromBytes longMessage) longHeader.ancount.toNat 12 =
      .ok ([privateRecord.reread (some (.unknown privateRecord.rdata)), r], 2211) := by
    change parseItems (ResourceRecord.fromBytes longMessage) 2 12 = _
    rw [parseItems, hfirst, Outcome.ok_bind]
    dsimp only
    rw [parseItems, hr, Outcome.ok_bind]
    rfl
  have hdecode : decodeMessage longMessage = .ok ⟨longHeader, [],
      [privateRecord.reread (some (.unknown privateRecord.rdata)), r], [], []⟩ := by
    have hnone : ∀ off, parseItems (ResourceRecord.fromBytes longMessage) 0 off = .ok ([], off) :=
      fun _ => rfl
    have hquestions : parseItems (Question.fromBytes longMessage) longHeader.qdcount.toNat 12 =
        .ok ([], 12) := rfl
    rw [decodeMessage, Message.fromBytes, hheader, Outcome.ok_bind, hquestions, Outcome.ok_bind]
    dsimp only
    rw [hanswers, Outcome.ok_bind]
    dsimp only
    rw [show longHeader.nscount.toNat = 0 from rfl, show longHeader.arcount.toNat = 0 from rfl, hnone,
      Outcome.ok_bind]
    dsimp only
    rw [hnone, Outcome.ok_bind, Outcome.pure_eq]
  exact ⟨_, r, hdecode, List.mem_cons_of_mem _ (List.mem_singleton_self r), hr, hfields⟩

end LongName

end FastDns.Dns
