/-
What the signed data says about the RDATA of an RRset.

A wire form has a length field of 16 bits in front of the RDATA, and decoded RDATA
can be longer than such a field tells, since its names are written out. It can be
told where it ends all the same: what is not a name comes from the message and has
at most 65535 bytes, and a name ends by itself (`Shaped`). So no wire form of an
RRset is a prefix of another, and the signed data determines them.

**`canonical_rdata_faithful`**: the records for which `record_rdata_canonical` is
the RDATA with its names in lower case, and that RRsets of such records have
different signed data unless they are the same up to case.
-/

import FastDns.Dns.Expansion
import FastDns.Dnssec.SignedData

namespace FastDns.Dnssec

open FastDns.Lib FastDns.Dns

/-! ### RDATA that ends by itself -/

/-- The number of bytes before the first name. -/
def fixedPart (rtype : UInt16) : Nat := if rtype = 15 then 2 else 0

/-- The number of names before the rest. -/
def nameCount (rtype : UInt16) : Nat :=
  if rtype = 6 then 2 else if rtype ∈ [5, 2, 12, 15, 47] then 1 else 0

/-- A fixed part, names, and a rest of at most 65535 bytes. -/
def Shaped (fixed count : Nat) (bytes : Bytes) : Prop :=
  ∃ (front : Bytes) (names : List (List Bytes)) (rest : Bytes),
    bytes = front ++ ((names.map wireName).flatten ++ rest) ∧ front.length = fixed ∧
      names.length = count ∧ (∀ labels ∈ names, LabelsOk labels) ∧ rest.length ≤ 65535

section Shape

variable {rdata msg a b x y : Bytes} {off fixed count : Nat} {rtype : UInt16} {p : RData}

/-- Names after each other are read in one way. -/
theorem names_append_inj {names names' : List (List Bytes)}
    (hlen : names.length = names'.length) (h : ∀ labels ∈ names, LabelsOk labels)
    (h' : ∀ labels ∈ names', LabelsOk labels)
    (heq : (names.map wireName).flatten ++ x = (names'.map wireName).flatten ++ y) :
    names = names' ∧ x = y := by
  induction names generalizing names' with
  | nil =>
      have hnil : names' = [] := List.length_eq_zero_iff.mp hlen.symm
      subst hnil
      exact ⟨rfl, heq⟩
  | cons labels names ih =>
      cases names' with
      | nil => cases hlen
      | cons labels' names' =>
          simp only [List.map_cons, List.flatten_cons, List.append_assoc] at heq
          obtain ⟨hl, hrest⟩ := List.forall_mem_cons.mp h
          obtain ⟨hl', hrest'⟩ := List.forall_mem_cons.mp h'
          obtain ⟨rfl, htail⟩ := wireName_append_inj hl hl' heq
          obtain ⟨rfl, hxy⟩ := ih (Nat.succ.inj hlen) hrest hrest' htail
          exact ⟨rfl, hxy⟩

/-- Bytes of one shape and one length field are no prefix of one another. -/
theorem Shaped.eq_of_isPrefix (ha : Shaped fixed count a) (hb : Shaped fixed count b)
    (hfield : UInt16.ofNat a.length = UInt16.ofNat b.length) (hpre : a <+: b) : a = b := by
  obtain ⟨front, names, rest, rfl, hfront, hcount, hnames, hrest⟩ := ha
  obtain ⟨front', names', rest', rfl, hfront', hcount', hnames', hrest'⟩ := hb
  obtain ⟨tail, htail⟩ := hpre
  rw [List.append_assoc, List.append_assoc] at htail
  obtain ⟨rfl, hbody⟩ := List.append_inj htail (hfront.trans hfront'.symm)
  obtain ⟨rfl, hends⟩ := names_append_inj (hcount.trans hcount'.symm) hnames hnames' hbody
  -- What is left of the two lengths is less than 2¹⁶, so the field tells it.
  have hlen : rest.length = rest'.length := by
    have hmod := congrArg UInt16.toNat hfield
    simp only [UInt16.toNat_ofNat', List.length_append] at hmod
    omega
  obtain ⟨rfl, _⟩ := List.append_inj (hends.trans (List.append_nil _).symm) hlen
  rfl

/-- What has no names ends where the field says. -/
theorem shaped_rest {rest : Bytes} (hrest : rest.length ≤ 65535) : Shaped 0 0 rest :=
  ⟨[], [], rest, rfl, rfl, rfl, fun _ hl => absurd hl List.not_mem_nil, hrest⟩

/-- A name with something around it. -/
theorem shaped_name (front : Bytes) {n : Bytes} (hn : WireName n) (rest : Bytes)
    (hrest : rest.length ≤ 65535) :
    Shaped front.length 1 (front ++ (n.map asciiLower ++ rest)) := by
  obtain ⟨labels, hlabels, rfl⟩ := hn
  refine ⟨front, [lowerAll labels], rest, ?_, rfl, rfl, ?_, hrest⟩
  · rw [map_asciiLower_wireName hlabels, List.map_singleton, List.flatten_singleton]
  · exact List.forall_mem_singleton.mpr hlabels.lowerAll

/-- **What a parser has read, in lower case, has the shape of its type.** -/
theorem shaped_of_readsAs (h : ReadsAs rdata msg off rtype p) (hlen : rdata.length ≤ 65535)
    (harm : hasCanonicalArm p = true) :
    Shaped (fixedPart rtype) (nameCount rtype) (lowerRdata p) := by
  have hsize := h.expansion
  cases h with
  | cname _ hn | ns _ hn | ptr _ hn =>
      have hshape := shaped_name [] hn.wireName [] (Nat.zero_le _)
      rwa [List.nil_append, List.append_nil] at hshape
  | @mx preference n next _ hn =>
      have hshape := shaped_name (u16ToBeBytes preference) hn.wireName [] (Nat.zero_le _)
      rwa [List.append_nil] at hshape
  | nsec hn _ =>
      exact shaped_name [] hn.wireName _
        (by rw [List.length_drop]; exact Nat.le_trans (Nat.sub_le _ _) hlen)
  | @soa s e next hm hr _ =>
      obtain ⟨mlabels, hmlabels, hmname⟩ := hm.wireName
      obtain ⟨rlabels, hrlabels, hrname⟩ := hr.wireName
      refine ⟨[], [lowerAll mlabels, lowerAll rlabels], u32ToBeBytes s.serial ++
        u32ToBeBytes s.refresh ++ u32ToBeBytes s.retry ++ u32ToBeBytes s.expire ++
        u32ToBeBytes s.minimum, ?_, rfl, rfl, ?_, ?_⟩
      · simp [lowerRdata, RData.mapNames, decompressedRdata, hmname, hrname,
          map_asciiLower_wireName hmlabels, map_asciiLower_wireName hrlabels]
      · exact List.forall_mem_cons.mpr ⟨hmlabels.lowerAll,
          List.forall_mem_singleton.mpr hrlabels.lowerAll⟩
      · simp [length_u32ToBeBytes]
  | srv | rrsig => cases harm
  | a | aaaa | txt | dnskey | ds =>
      rcases hsize with hexpands | ⟨_, hle⟩
      · exact absurd hexpands.readsNames.1 (by decide)
      · exact shaped_rest (Nat.le_trans hle hlen)
  | other htype _ =>
      have hparts : fixedPart rtype = 0 ∧ nameCount rtype = 0 := by
        simp only [knownTypes, List.mem_cons, List.not_mem_nil, or_false, not_or] at htype
        simp [fixedPart, nameCount, htype]
      rw [hparts.1, hparts.2]
      exact shaped_rest hlen

end Shape

/-! ### What the signed data determines -/

/-- The record was decoded somewhere. -/
def Decoded (r : ResourceRecord) : Prop :=
  ∃ data offset next, ResourceRecord.fromBytes data offset = .ok (r, next)

/-- The RDATA has a canonical form, and its names come back from their text. -/
def CanonicalSafe (p : RData) : Prop :=
  hasCanonicalArm p = true ∧ ∀ name ∈ p.embeddedNames, TextSafe name

/-- The RDATA of the record, with the letters of its names in lower case. -/
def loweredRdata (r : ResourceRecord) : Bytes :=
  match r.parsed with
  | some p => lowerRdata p
  | none => r.rdata

/-- A decoded record whose canonical RDATA can be relied on. -/
structure SafeRecord (r : ResourceRecord) : Prop where
  decoded : Decoded r
  parsed : ∃ p, r.parsed = some p ∧ CanonicalSafe p

section Determined

variable {a b r : ResourceRecord} {owner : Bytes} {rtype rclass : UInt16} {ttl : UInt32}
  {rrset : List ResourceRecord}

theorem CanonicalSafe.ne_rrsig {p : RData} (h : CanonicalSafe p) (s : Rrsig) : p ≠ .rrsig s := by
  rintro rfl
  cases h.1

/-- The canonical RDATA of such a record is the one in lower case, and has the shape
of its type. -/
theorem SafeRecord.canonical (h : SafeRecord r) :
    recordRdataCanonical r = loweredRdata r ∧
      Shaped (fixedPart r.rtype) (nameCount r.rtype) (recordRdataCanonical r) := by
  obtain ⟨p, hp, hsafe⟩ := h.parsed
  obtain ⟨data, offset, next, hread⟩ := h.decoded
  have hlowered : loweredRdata r = lowerRdata p := by rw [loweredRdata, hp]
  have hcanonical : recordRdataCanonical r = lowerRdata p := by
    rcases (decoded_record hread).2 with ⟨p', hp', hlayout⟩ | ⟨hnone, _⟩
    · rw [hp] at hp'
      cases hp'
      exact (canonical_faithful_iff hp hlayout hsafe.ne_rrsig).mpr hsafe
    · rw [hp] at hnone
      cases hnone
  obtain ⟨n, e, parsed, _, hroom, hparsed, rfl, _⟩ := record_eq_ok.mp hread
  cases (hp : parsed = some p)
  refine ⟨hcanonical.trans hlowered.symm, ?_⟩
  rw [hcanonical]
  refine shaped_of_readsAs (readsAs_of_parseRdata hparsed) ?_ hsafe.1
  rw [length_rawRdataAt hroom]
  exact Nat.le_of_lt_succ (u16At data (e + 8)).toNat_lt

/-- No wire form of an RRset is a prefix of another. -/
theorem IsRrset.wire_prefixFree (h : IsRrset owner rtype rclass rrset) (ha : a ∈ rrset)
    (hb : b ∈ rrset) (hasafe : SafeRecord a) (hbsafe : SafeRecord b)
    (hpre : recordToCanonicalWire a ttl <+: recordToCanonicalWire b ttl) :
    recordRdataCanonical a = recordRdataCanonical b := by
  rw [h.recordToCanonicalWire_eq ha, h.recordToCanonicalWire_eq hb,
    List.prefix_append_right_inj] at hpre
  obtain ⟨tail, htail⟩ := hpre
  rw [List.append_assoc] at htail
  obtain ⟨hfield, hrdata⟩ := List.append_inj htail rfl
  have hshape := hasafe.canonical.2
  have hshape' := hbsafe.canonical.2
  rw [(h a ha).2.1] at hshape
  rw [(h b hb).2.1] at hshape'
  exact hshape.eq_of_isPrefix hshape' (u16ToBeBytes_inj.mp hfield) ⟨tail, hrdata⟩

theorem IsRrset.map_drop_wire (h : IsRrset owner rtype rclass rrset)
    (hsafe : ∀ r ∈ rrset, SafeRecord r) :
    (rrset.map fun r => recordToCanonicalWire r ttl).map
        (List.drop ((recordHead owner rtype rclass ttl).length + 2)) =
      rrset.map loweredRdata := by
  rw [List.map_map]
  apply List.map_congr_left
  intro r hr
  exact (h.drop_wire hr).trans (hsafe r hr).canonical.1

/-- **RRsets of such records with the same signed data are the same up to case.** -/
theorem rdata_perm_of_signedData {rrsig : ResourceRecord} {s : Rrsig}
    {rrset' : List ResourceRecord} (hs : rrsig.parsed = some (.rrsig s))
    (hset : IsRrset owner rtype rclass rrset) (hset' : IsRrset owner rtype rclass rrset')
    (hsafe : ∀ r ∈ rrset ++ rrset', SafeRecord r)
    (heq : buildSignedData rrsig rrset = buildSignedData rrsig rrset') :
    (rrset.map loweredRdata).Perm (rrset'.map loweredRdata) := by
  have hboth : IsRrset owner rtype rclass (rrset ++ rrset') := fun r hr =>
    (List.mem_append.mp hr).elim (hset r) (hset' r)
  have hword : ∀ rs ⊆ rrset ++ rrset', ∀ w ∈ sortedWires s.originalTtl rs,
      ∃ r ∈ rrset ++ rrset', recordToCanonicalWire r s.originalTtl = w := by
    intro rs hsub w hw
    obtain ⟨r, hr, hwire⟩ := List.mem_map.mp ((sortedWires_perm s.originalTtl rs).mem_iff.mp hw)
    exact ⟨r, hsub hr, hwire⟩
  rw [buildSignedData_eq hs, buildSignedData_eq hs] at heq
  have hwires : sortedWires s.originalTtl rrset = sortedWires s.originalTtl rrset' := by
    refine flatten_inj ?_ ?_ (hword rrset (List.subset_append_left _ _))
      (hword rrset' (List.subset_append_right _ _)) (List.append_cancel_left heq)
    · rintro w ⟨r, hr, rfl⟩ hnil
      have hlen := congrArg List.length hnil
      rw [hboth.recordToCanonicalWire_eq hr, List.length_append, List.length_append,
        length_u16ToBeBytes, List.length_nil] at hlen
      omega
    · rintro w w' ⟨a, ha, rfl⟩ ⟨b, hb, rfl⟩ hpre
      exact hboth.wire_eq_of_rdata_eq ha hb
        (hboth.wire_prefixFree ha hb (hsafe a ha) (hsafe b hb) hpre)
  have hperm := (sortedWires_eq_iff.mp hwires).map
    (List.drop ((recordHead owner rtype rclass s.originalTtl).length + 2))
  rwa [hset.map_drop_wire fun r hr => hsafe r (List.mem_append_left _ hr),
    hset'.map_drop_wire fun r hr => hsafe r (List.mem_append_right _ hr)] at hperm

end Determined

/-- **The canonical RDATA of a decoded record is its RDATA with the names in lower
case exactly if its type has a canonical form and its names come back from their
text.** RRsets of such records with the same signed data have the same RDATA, up to
order and case. -/
theorem canonical_rdata_faithful (data : Bytes) (offset : Nat) (r : ResourceRecord) (next : Nat)
    (p : RData) (rrsig : ResourceRecord) (s : Rrsig) (owner : Bytes) (rtype rclass : UInt16)
    (rrset rrset' : List ResourceRecord) :
    (ResourceRecord.fromBytes data offset = .ok (r, next) → r.parsed = some p →
      (∀ s, p ≠ .rrsig s) →
      r.rdata = decompressedRdata p ∧
        (recordRdataCanonical r = lowerRdata p ↔ CanonicalSafe p)) ∧
      (rrsig.parsed = some (.rrsig s) → IsRrset owner rtype rclass rrset →
        IsRrset owner rtype rclass rrset' → (∀ r ∈ rrset ++ rrset', SafeRecord r) →
        buildSignedData rrsig rrset = buildSignedData rrsig rrset' →
        (rrset.map loweredRdata).Perm (rrset'.map loweredRdata)) := by
  constructor
  · intro hread hp hrrsig
    rcases (decoded_record hread).2 with ⟨p', hp', hlayout⟩ | ⟨hnone, _⟩
    · rw [hp] at hp'
      cases hp'
      exact ⟨hlayout.decompressedRdata_eq.symm, canonical_faithful_iff hp hlayout hrrsig⟩
    · rw [hp] at hnone
      cases hnone
  · intro hs hset hset' hsafe heq
    exact rdata_perm_of_signedData hs hset hset' hsafe heq

/-- A record of the root, as a message. -/
def rootMessage (rtype : UInt8) (rdata : Bytes) : Bytes :=
  [0, 0, rtype, 0, 1, 0, 0, 0, 60, 0, UInt8.ofNat rdata.length] ++ rdata

/-- The record of the root with the server of the one letter. -/
def rootNs (letter : UInt8) : ResourceRecord :=
  ⟨[0], 2, 1, 60, 3, [1, letter, 0], some (.ns [1, letter, 0])⟩

/-- The server `A` of the root is signed as `a`, and the signed data tells the two
from no other. -/
theorem canonical_rdata_upperCase :
    recordRdataCanonical (rootNs 65) = [1, 97, 0] ∧
      buildSignedData (sampleSignature [0] 2 0 11530 [0] []) [rootNs 65] =
        buildSignedData (sampleSignature [0] 2 0 11530 [0] []) [rootNs 97] ∧
      ([rootNs 65].map loweredRdata).Perm ([rootNs 97].map loweredRdata) := by
  have hupper : ResourceRecord.fromBytes (rootMessage 2 [1, 65, 0]) 0 =
      .ok (rootNs 65, 14) := rfl
  have hlower : ResourceRecord.fromBytes (rootMessage 2 [1, 97, 0]) 0 =
      .ok (rootNs 97, 14) := rfl
  have hsafe : ∀ r ∈ [rootNs 65] ++ [rootNs 97], SafeRecord r := by
    intro r hr
    rcases List.mem_pair.mp hr with rfl | rfl
    · exact ⟨⟨_, _, _, hupper⟩, _, rfl, rfl, by decide⟩
    · exact ⟨⟨_, _, _, hlower⟩, _, rfl, rfl, by decide⟩
  have hset : ∀ letter, IsRrset [0] 2 1 [rootNs letter] := fun letter =>
    List.forall_mem_singleton.mpr ⟨.inl rfl, rfl, rfl⟩
  have hdata : buildSignedData (sampleSignature [0] 2 0 11530 [0] []) [rootNs 65] =
      buildSignedData (sampleSignature [0] 2 0 11530 [0] []) [rootNs 97] := by
    decide +kernel
  obtain ⟨hfaithful, hdistinct⟩ := canonical_rdata_faithful (rootMessage 2 [1, 65, 0]) 0
    (rootNs 65) 14 (.ns [1, 65, 0]) (sampleSignature [0] 2 0 11530 [0] []) _ [0] 2 1
    [rootNs 65] [rootNs 97]
  exact ⟨(hfaithful hupper rfl fun _ => nofun).2.mpr ⟨rfl, by decide⟩, hdata,
    hdistinct rfl (hset 65) (hset 97) hsafe hdata⟩

/-- A server for a service of the root, at the port. -/
def srvRecord (port : UInt16) : ResourceRecord :=
  sampleRecord [0] 33 (.srv 1 2 port [0])

/-- An SRV record has no canonical RDATA, so two ports are signed as the same. -/
theorem srv_rdata_lost :
    ResourceRecord.fromBytes (rootMessage 33 [0, 1, 0, 2, 0, 80, 0]) 0 =
        .ok ({ srvRecord 80 with ttl := 60 }, 18) ∧
      recordRdataCanonical (srvRecord 80) = [] ∧
      lowerRdata (.srv 1 2 80 [0]) = [0, 1, 0, 2, 0, 80, 0] ∧
      buildSignedData (sampleSignature [0] 33 0 11530 [0] []) [srvRecord 80] =
        buildSignedData (sampleSignature [0] 33 0 11530 [0] []) [srvRecord 443] ∧
      ¬ ([srvRecord 80].map loweredRdata).Perm ([srvRecord 443].map loweredRdata) :=
  ⟨rfl, rfl, rfl, by decide +kernel, by decide +kernel⟩

end FastDns.Dnssec
