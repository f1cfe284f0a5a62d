/-
The bytes a signature covers (`build_signed_data`, `src/dnssec/mod.rs`).

They are the fields of the signature and then the canonical wire forms of the
records, sorted as byte strings (`buildSignedData_eq`).

* **`validation_ignores_presentation`.** They depend on the records through the
  collection of these wire forms only: neither the order of the records nor their
  current TTL nor the case of a letter in a name makes a difference.
* **`canonical_order_iff`.** A wire form has the RDLENGTH field in front of the
  RDATA, and the program sorts by both. That is the order of the RDATA alone
  exactly if the length fields ascend with the RDATA.
-/

import FastDns.Dnssec.CanonicalRdata
import FastDns.Dnssec.ChainOfTrust
import FastDns.Lib.Words

namespace FastDns.Dnssec

open FastDns.Lib FastDns.Dns

/-! ### The order of byte strings -/

/-- The order in which vectors are sorted is the lexicographic one. -/
theorem bytesLe_iff {a b : Bytes} : bytesLe a b = true ↔ a ≤ b := by
  induction a generalizing b with
  | nil => simp [bytesLe]
  | cons x a ih =>
      cases b with
      | nil => simp [bytesLe]
      | cons y b => simp [bytesLe, List.cons_le_cons_iff, ih]

instance : Std.Total fun a b => bytesLe a b = true where
  total a b := by
    simp only [bytesLe_iff]
    exact Std.le_total

instance : IsTrans Bytes fun a b => bytesLe a b = true where
  trans a b c := by
    simp only [bytesLe_iff]
    exact Std.le_trans

instance : Std.Antisymm fun a b => bytesLe a b = true where
  antisymm a b := by
    simp only [bytesLe_iff]
    exact Std.le_antisymm

/-- Numbers are ordered as their big-endian bytes. -/
theorem u16ToBeBytes_lt_iff {m n : UInt16} : u16ToBeBytes m < u16ToBeBytes n ↔ m < n := by
  have hm := m.toNat_lt
  have hn := n.toNat_lt
  simp only [u16ToBeBytes, List.cons_lt_cons_iff, List.not_lt_nil, and_false, or_false,
    UInt8.lt_iff_toNat_lt, ← UInt8.toNat_inj, UInt8.toNat_ofNat', UInt16.lt_iff_toNat_lt]
  omega

theorem u16ToBeBytes_inj {m n : UInt16} : u16ToBeBytes m = u16ToBeBytes n ↔ m = n := by
  constructor
  · intro h
    rw [← (standsAt_self (u16ToBeBytes m)).u16At, ← (standsAt_self (u16ToBeBytes n)).u16At, h]
  · exact congrArg u16ToBeBytes

/-! ### The form of the signed data -/

/-- The fields of a signature that are signed: all but the signature. -/
def rrsigFields (s : Rrsig) : Bytes := rrsigHead s ++ canonicalName s.signerName

/-- The canonical wire forms of the records, sorted. -/
def sortedWires (ttl : UInt32) (rrset : List ResourceRecord) : List Bytes :=
  (rrset.map fun r => recordToCanonicalWire r ttl).insertionSort fun a b => bytesLe a b = true

section Form

variable {rrsig : ResourceRecord} {s : Rrsig} {ttl : UInt32} {rrset rrset' : List ResourceRecord}

theorem buildSignedData_eq (hs : rrsig.parsed = some (.rrsig s)) :
    buildSignedData rrsig rrset = rrsigFields s ++ (sortedWires s.originalTtl rrset).flatten := by
  simp [buildSignedData, hs, rrsigFields, rrsigHead, sortedWires]

theorem buildSignedData_of_not_rrsig (h : ∀ s, rrsig.parsed ≠ some (.rrsig s)) :
    buildSignedData rrsig rrset = [] := by
  rw [buildSignedData]
  split
  · rename_i s hs
    exact absurd hs (h s)
  · rfl

theorem keyVerifies_of_not_dnskey {crypto : Crypto} {signedData : Bytes} {dk : ResourceRecord}
    (h : ∀ k, dk.parsed ≠ some (.dnskey k)) : keyVerifies crypto s signedData dk = false := by
  rw [keyVerifies]
  split
  · rename_i k hk
    exact absurd hk (h k)
  · rfl

/-- Without a signature or without a key there is nothing to verify. -/
theorem rrsigVerifiedBy_of_unparsed {dk : ResourceRecord}
    (h : (∀ s, rrsig.parsed ≠ some (.rrsig s)) ∨ ∀ k, dk.parsed ≠ some (.dnskey k)) :
    rrsigVerifiedBy rrsig dk rrset = pure false := by
  rcases rrsigVerifiedBy_cases rrsig dk rrset with ⟨s, k, hs, hk, _⟩ | hfalse
  · rcases h with hno | hno
    · exact absurd hs (hno s)
    · exact absurd hk (hno k)
  · exact hfalse

theorem sortedWires_perm (ttl : UInt32) (rrset : List ResourceRecord) :
    (sortedWires ttl rrset).Perm (rrset.map fun r => recordToCanonicalWire r ttl) :=
  List.perm_insertionSort _ _

theorem sortedWires_pairwise (ttl : UInt32) (rrset : List ResourceRecord) :
    (sortedWires ttl rrset).Pairwise fun a b => bytesLe a b = true :=
  List.pairwise_insertionSort _ _

/-- Only the collection of wire forms matters. -/
theorem sortedWires_eq_iff :
    sortedWires ttl rrset = sortedWires ttl rrset' ↔
      (rrset.map fun r => recordToCanonicalWire r ttl).Perm
        (rrset'.map fun r => recordToCanonicalWire r ttl) := by
  constructor
  · intro h
    exact (sortedWires_perm ttl rrset).symm.trans (h ▸ sortedWires_perm ttl rrset')
  · intro h
    exact List.Perm.eq_of_pairwise' (sortedWires_pairwise ttl rrset)
      (sortedWires_pairwise ttl rrset')
      ((sortedWires_perm ttl rrset).trans (h.trans (sortedWires_perm ttl rrset').symm))

end Form

/-! ### Presentation -/

/-- Two spellings of one name: they are equal up to the case of letters. -/
def SpelledAs (a b : Bytes) : Prop := a = b ∨ domainNamesEqual a b = true

/-- The same RDATA, up to the case of the letters in its names. -/
inductive CaseVariant : RData → RData → Prop where
  | same (p : RData) : CaseVariant p p
  | ns {a b : Bytes} : SpelledAs a b → CaseVariant (.ns a) (.ns b)
  | cname {a b : Bytes} : SpelledAs a b → CaseVariant (.cname a) (.cname b)
  | ptr {a b : Bytes} : SpelledAs a b → CaseVariant (.ptr a) (.ptr b)
  | mx {preference : UInt16} {a b : Bytes} : SpelledAs a b →
      CaseVariant (.mx preference a) (.mx preference b)
  | soa {s : Soa} {m r : Bytes} : SpelledAs s.mname m →
      SpelledAs s.rname r →
      CaseVariant (.soa s) (.soa { s with mname := m, rname := r })
  | nsec {typeBitMaps a b : Bytes} : SpelledAs a b →
      CaseVariant (.nsec a typeBitMaps) (.nsec b typeBitMaps)
  | rrsig {s : Rrsig} {n : Bytes} : SpelledAs s.signerName n →
      CaseVariant (.rrsig s) (.rrsig { s with signerName := n })

/-- The same record in another presentation: its names may be spelled in another
case, and nothing is said about the TTL and the RDATA it would be sent with. -/
structure Presents (r r' : ResourceRecord) : Prop where
  name : SpelledAs r.name r'.name
  rtype : r.rtype = r'.rtype
  rclass : r.rclass = r'.rclass
  parsed : Option.Rel CaseVariant r.parsed r'.parsed

/-- The same records, in any order and any presentation. -/
def PresentsAll (records records' : List ResourceRecord) : Prop :=
  ∃ ordered, records.Perm ordered ∧ List.Forall₂ Presents ordered records'

section Presentation

variable {r r' rrsig rrsig' dk dk' : ResourceRecord} {ttl : UInt32}
  {records records' dnskeys dnskeys' : List ResourceRecord}

theorem SpelledAs.canonicalName_eq {a b : Bytes} (h : SpelledAs a b) :
    canonicalName a = canonicalName b := by
  rcases h with rfl | heq
  · rfl
  · exact canonicalName_congr heq

theorem Presents.recordRdataCanonical_eq (h : Presents r r') :
    recordRdataCanonical r = recordRdataCanonical r' := by
  have hparsed := h.parsed
  rw [recordRdataCanonical, recordRdataCanonical]
  generalize r.parsed = parsed at hparsed
  generalize r'.parsed = parsed' at hparsed
  cases hparsed with
  | none => rfl
  | some hvariant =>
      cases hvariant with
      | same p => rfl
      | ns hn | cname hn | ptr hn => exact hn.canonicalName_eq
      | mx hn | nsec hn => simp only [hn.canonicalName_eq]
      | soa hm hr => simp only [hm.canonicalName_eq, hr.canonicalName_eq]
      | rrsig hn => rfl

theorem Presents.recordToCanonicalWire_eq (h : Presents r r') :
    recordToCanonicalWire r ttl = recordToCanonicalWire r' ttl := by
  rw [recordToCanonicalWire, recordToCanonicalWire, h.name.canonicalName_eq, h.rtype, h.rclass,
    h.recordRdataCanonical_eq]

/-- What is the same for every presentation of a record is, for a list, the same
up to the order. -/
theorem PresentsAll.map_perm {β : Type} {f : ResourceRecord → β}
    (hf : ∀ r r', Presents r r' → f r = f r') (h : PresentsAll records records') :
    (records.map f).Perm (records'.map f) := by
  obtain ⟨ordered, hperm, hall⟩ := h
  have hmap : ordered.map f = records'.map f := by
    clear hperm
    induction hall with
    | nil => rfl
    | cons hr _ ih => rw [List.map_cons, List.map_cons, hf _ _ hr, ih]
  exact hmap ▸ hperm.map f

/-- Another presentation of a signature is a signature, whose signer has the same
canonical name. -/
theorem Presents.signature (h : Presents rrsig rrsig') :
    (∃ s n, rrsig.parsed = some (.rrsig s) ∧
        rrsig'.parsed = some (.rrsig { s with signerName := n }) ∧
        canonicalName s.signerName = canonicalName n) ∨
      (∀ s, rrsig.parsed ≠ some (.rrsig s)) ∧ ∀ s, rrsig'.parsed ≠ some (.rrsig s) := by
  have hparsed := h.parsed
  generalize rrsig.parsed = parsed at hparsed
  generalize rrsig'.parsed = parsed' at hparsed
  cases hparsed with
  | none => exact .inr ⟨fun _ => nofun, fun _ => nofun⟩
  | @some p p' hvariant =>
      cases hvariant with
      | rrsig hn => exact .inl ⟨_, _, rfl, rfl, hn.canonicalName_eq⟩
      | same =>
          by_cases hp : ∃ s, p = .rrsig s
          · obtain ⟨s, rfl⟩ := hp
            exact .inl ⟨s, s.signerName, rfl, rfl, rfl⟩
          · simp only [not_exists] at hp
            exact .inr ⟨fun s hs => hp s (Option.some.inj hs), fun s hs => hp s (Option.some.inj hs)⟩
      | _ => exact .inr ⟨fun _ => nofun, fun _ => nofun⟩

/-- A key is presented in one way only. -/
theorem Presents.key (h : Presents dk dk') :
    (∃ k, dk.parsed = some (.dnskey k) ∧ dk'.parsed = some (.dnskey k)) ∨
      (∀ k, dk.parsed ≠ some (.dnskey k)) ∧ ∀ k, dk'.parsed ≠ some (.dnskey k) := by
  have hparsed := h.parsed
  generalize dk.parsed = parsed at hparsed
  generalize dk'.parsed = parsed' at hparsed
  cases hparsed with
  | none => exact .inr ⟨fun _ => nofun, fun _ => nofun⟩
  | @some p p' hvariant =>
      cases hvariant with
      | same =>
          by_cases hp : ∃ k, p = .dnskey k
          · obtain ⟨k, rfl⟩ := hp
            exact .inl ⟨k, rfl, rfl⟩
          · simp only [not_exists] at hp
            exact .inr ⟨fun k hk => hp k (Option.some.inj hk), fun k hk => hp k (Option.some.inj hk)⟩
      | _ => exact .inr ⟨fun _ => nofun, fun _ => nofun⟩

theorem buildSignedData_congr (hrrsig : Presents rrsig rrsig')
    (hrecords : PresentsAll records records') :
    buildSignedData rrsig records = buildSignedData rrsig' records' := by
  have hwires : ∀ ttl, sortedWires ttl records = sortedWires ttl records' := fun ttl =>
    sortedWires_eq_iff.mpr (hrecords.map_perm fun _ _ h => h.recordToCanonicalWire_eq)
  rcases hrrsig.signature with ⟨s, n, hs, hs', hn⟩ | ⟨hno, hno'⟩
  · rw [buildSignedData_eq hs, buildSignedData_eq hs', rrsigFields, rrsigFields, hwires, hn]
    rfl
  · rw [buildSignedData_of_not_rrsig hno, buildSignedData_of_not_rrsig hno']

theorem Presents.keyVerifies_eq (crypto : Crypto) (s : Rrsig) (signedData : Bytes)
    (h : Presents dk dk') :
    keyVerifies crypto s signedData dk = keyVerifies crypto s signedData dk' := by
  rcases h.key with ⟨k, hk, hk'⟩ | ⟨hno, hno'⟩
  · rw [keyVerifies, keyVerifies, hk, hk']
  · rw [keyVerifies_of_not_dnskey hno, keyVerifies_of_not_dnskey hno']

theorem validateRrset_congr (crypto : Crypto) (now : UInt32) (hrrsig : Presents rrsig rrsig')
    (hrecords : PresentsAll records records') (hdnskeys : PresentsAll dnskeys dnskeys') :
    validateRrset crypto now rrsig records dnskeys =
      validateRrset crypto now rrsig' records' dnskeys' := by
  have hdata := buildSignedData_congr hrrsig hrecords
  rcases hrrsig.signature with ⟨s, n, hs, hs', _⟩ | ⟨hno, hno'⟩
  · have hany : dnskeys.any (keyVerifies crypto s (buildSignedData rrsig records)) =
        dnskeys'.any (keyVerifies crypto s (buildSignedData rrsig' records')) := by
      rw [hdata]
      have hperm := hdnskeys.map_perm fun _ _ h =>
        h.keyVerifies_eq crypto s (buildSignedData rrsig' records')
      simpa using hperm.any_eq (f := id)
    simp only [validateRrset, hs, hs', hany]
    rfl
  · rw [validateRrset_indeterminate_iff.mpr hno, validateRrset_indeterminate_iff.mpr hno']

theorem rrsigVerifiedBy_congr (hrrsig : Presents rrsig rrsig') (hdk : Presents dk dk')
    (hrecords : PresentsAll records records') :
    rrsigVerifiedBy rrsig dk records = rrsigVerifiedBy rrsig' dk' records' := by
  have hdata := buildSignedData_congr hrrsig hrecords
  rcases hrrsig.signature with ⟨s, n, hs, hs', _⟩ | ⟨hno, hno'⟩
  · rcases hdk.key with ⟨k, hk, hk'⟩ | ⟨hnokey, hnokey'⟩
    · simp only [rrsigVerifiedBy, hs, hs', hk, hk', hdata]
    · rw [rrsigVerifiedBy_of_unparsed (.inr hnokey), rrsigVerifiedBy_of_unparsed (.inr hnokey')]
  · rw [rrsigVerifiedBy_of_unparsed (.inl hno), rrsigVerifiedBy_of_unparsed (.inl hno')]

end Presentation

/-- **Validation does not depend on the presentation of the records**: their
order, their TTL and the case of the letters in their names, in the name of the
signer and in those of the keys. -/
theorem validation_ignores_presentation (rrsig rrsig' : ResourceRecord)
    (records records' : List ResourceRecord) (hrrsig : Presents rrsig rrsig')
    (hrecords : PresentsAll records records') :
    buildSignedData rrsig records = buildSignedData rrsig' records' ∧
      (∀ crypto now dnskeys dnskeys', PresentsAll dnskeys dnskeys' →
        validateRrset crypto now rrsig records dnskeys =
          validateRrset crypto now rrsig' records' dnskeys') ∧
      ∀ dk dk', Presents dk dk' →
        rrsigVerifiedBy rrsig dk records = rrsigVerifiedBy rrsig' dk' records' := by
  constructor
  · exact buildSignedData_congr hrrsig hrecords
  constructor
  · intro crypto now dnskeys dnskeys' hdnskeys
    exact validateRrset_congr crypto now hrrsig hrecords hdnskeys
  · intro dk dk' hdk
    exact rrsigVerifiedBy_congr hrrsig hdk hrecords

/-- The server `host` of the zone `test`, whose name is spelled `zone`. -/
def serverRecord (zone : Bytes) (ttl : UInt32) (host : Bytes) : ResourceRecord :=
  { sampleRecord zone 2 (.ns host) with ttl }

/-- Two servers in another order, with other TTLs and other letters. -/
theorem presentation_twoServers :
    buildSignedData (sampleSignature sampleZoneName 2 1 63441 sampleZoneName [])
        [serverRecord sampleZoneName 3600 [1, 97, 0], serverRecord sampleZoneName 3600 [1, 98, 0]] =
      buildSignedData (sampleSignature sampleZoneName 2 1 63441 [4, 84, 69, 83, 84, 0] [])
        [serverRecord [4, 84, 101, 115, 116, 0] 17 [1, 66, 0],
          serverRecord sampleZoneName 18 [1, 97, 0]] := by
  have hrrsig : Presents (sampleSignature sampleZoneName 2 1 63441 sampleZoneName [])
      (sampleSignature sampleZoneName 2 1 63441 [4, 84, 69, 83, 84, 0] []) :=
    ⟨.inl rfl, rfl, rfl, .some (.rrsig (.inr (by decide)))⟩
  have hb : Presents (serverRecord sampleZoneName 3600 [1, 98, 0])
      (serverRecord [4, 84, 101, 115, 116, 0] 17 [1, 66, 0]) :=
    ⟨.inr (by decide), rfl, rfl, .some (.ns (.inr (by decide)))⟩
  have ha : Presents (serverRecord sampleZoneName 3600 [1, 97, 0])
      (serverRecord sampleZoneName 18 [1, 97, 0]) :=
    ⟨.inl rfl, rfl, rfl, .some (.same _)⟩
  exact (validation_ignores_presentation _ _ _ _ hrrsig
    ⟨_, .swap _ _ _, .cons hb (.cons ha .nil)⟩).1

/-! ### Canonical order -/

/-- The records have one owner, type and class. -/
def IsRrset (owner : Bytes) (rtype rclass : UInt16) (rrset : List ResourceRecord) : Prop :=
  ∀ r ∈ rrset, SpelledAs owner r.name ∧ r.rtype = rtype ∧ r.rclass = rclass

/-- What the records of an RRset have in front of the RDLENGTH field. -/
def recordHead (owner : Bytes) (rtype rclass : UInt16) (ttl : UInt32) : Bytes :=
  canonicalName owner ++ u16ToBeBytes rtype ++ u16ToBeBytes rclass ++ u32ToBeBytes ttl

/-- The RDLENGTH field of the canonical wire form. -/
def rdlengthField (r : ResourceRecord) : UInt16 := UInt16.ofNat (recordRdataCanonical r).length

/-- The signed data has the records in the order of their canonical RDATA. -/
def SignedInCanonicalOrder (rrsig : ResourceRecord) (s : Rrsig) (rrset : List ResourceRecord) :
    Prop :=
  ∃ ordered : List ResourceRecord, ordered.Perm rrset ∧
    ordered.Pairwise (fun a b => recordRdataCanonical a ≤ recordRdataCanonical b) ∧
    buildSignedData rrsig rrset =
      rrsigFields s ++ ordered.flatMap fun r => recordToCanonicalWire r s.originalTtl

/-- The record with the smaller RDATA does not have the larger length field. -/
def LengthsAscend (a b : ResourceRecord) : Prop :=
  (recordRdataCanonical a ≤ recordRdataCanonical b → rdlengthField a ≤ rdlengthField b) ∧
    (recordRdataCanonical b ≤ recordRdataCanonical a → rdlengthField b ≤ rdlengthField a)

instance : Std.Symm LengthsAscend where
  symm _ _ h := h.symm

section CanonicalOrder

variable {owner : Bytes} {rtype rclass : UInt16} {ttl : UInt32} {rrset : List ResourceRecord}
  {a b r : ResourceRecord}

theorem IsRrset.recordToCanonicalWire_eq (h : IsRrset owner rtype rclass rrset) (hr : r ∈ rrset) :
    recordToCanonicalWire r ttl = recordHead owner rtype rclass ttl ++
      (u16ToBeBytes (rdlengthField r) ++ recordRdataCanonical r) := by
  obtain ⟨hname, rfl, rfl⟩ := h r hr
  simp [recordToCanonicalWire, recordHead, rdlengthField, hname.canonicalName_eq]

/-- Wire forms are compared by the length field first. -/
theorem IsRrset.wire_le_iff (h : IsRrset owner rtype rclass rrset) (ha : a ∈ rrset)
    (hb : b ∈ rrset) :
    bytesLe (recordToCanonicalWire a ttl) (recordToCanonicalWire b ttl) = true ↔
      rdlengthField a < rdlengthField b ∨
        rdlengthField a = rdlengthField b ∧ recordRdataCanonical a ≤ recordRdataCanonical b := by
  rw [bytesLe_iff, h.recordToCanonicalWire_eq ha, h.recordToCanonicalWire_eq hb,
    append_le_append_iff rfl, append_le_append_iff (by simp [length_u16ToBeBytes]),
    u16ToBeBytes_lt_iff, u16ToBeBytes_inj]
  simp [List.lt_irrefl]

/-- The sorted wire forms are those of the records in some order. -/
theorem sortedWires_eq_map (ttl : UInt32) (rrset : List ResourceRecord) :
    ∃ ordered : List ResourceRecord, ordered.Perm rrset ∧
      sortedWires ttl rrset = ordered.map fun r => recordToCanonicalWire r ttl := by
  refine ⟨rrset.insertionSort fun a b =>
    bytesLe (recordToCanonicalWire a ttl) (recordToCanonicalWire b ttl) = true,
    List.perm_insertionSort _ _, ?_⟩
  rw [List.map_insertionSort _ (fun a b => bytesLe a b = true) _ _ fun _ _ _ _ => Iff.rfl]
  rfl

/-- Where the length fields ascend with the RDATA, both orders are one. -/
theorem IsRrset.rdata_le_of_wire_le (h : IsRrset owner rtype rclass rrset)
    (hlengths : ∀ a ∈ rrset, ∀ b ∈ rrset,
      recordRdataCanonical a ≤ recordRdataCanonical b → rdlengthField a ≤ rdlengthField b)
    (ha : a ∈ rrset) (hb : b ∈ rrset)
    (hle : bytesLe (recordToCanonicalWire a ttl) (recordToCanonicalWire b ttl) = true) :
    recordRdataCanonical a ≤ recordRdataCanonical b := by
  rcases (h.wire_le_iff ha hb).mp hle with hlt | ⟨_, hrdata⟩
  · rcases Std.le_total (a := recordRdataCanonical a) (b := recordRdataCanonical b) with
      hrdata | hrdata
    · exact hrdata
    · exact absurd (hlengths b hb a ha hrdata) (UInt16.not_le.mpr hlt)
  · exact hrdata

/-- The RDATA starts at the same place in all wire forms. -/
theorem IsRrset.drop_wire (h : IsRrset owner rtype rclass rrset) (hr : r ∈ rrset) :
    (recordToCanonicalWire r ttl).drop ((recordHead owner rtype rclass ttl).length + 2) =
      recordRdataCanonical r := by
  rw [h.recordToCanonicalWire_eq hr, ← List.append_assoc]
  exact List.drop_left' (by rw [List.length_append, length_u16ToBeBytes])

theorem IsRrset.wire_eq_of_rdata_eq (h : IsRrset owner rtype rclass rrset) (ha : a ∈ rrset)
    (hb : b ∈ rrset) (hrdata : recordRdataCanonical a = recordRdataCanonical b) :
    recordToCanonicalWire a ttl = recordToCanonicalWire b ttl := by
  rw [h.recordToCanonicalWire_eq ha, h.recordToCanonicalWire_eq hb, rdlengthField, rdlengthField,
    hrdata]

/-- The signed string shows in which order the wire forms are: sorted as they
are, or sorted by the RDATA. -/
theorem IsRrset.sortedWires_of_flatten (h : IsRrset owner rtype rclass rrset)
    {ordered : List ResourceRecord} (hperm : ordered.Perm rrset)
    (hordered : ordered.Pairwise fun a b => recordRdataCanonical a ≤ recordRdataCanonical b)
    (hflat : (sortedWires ttl rrset).flatten =
      (ordered.map fun r => recordToCanonicalWire r ttl).flatten) :
    sortedWires ttl rrset = ordered.map fun r => recordToCanonicalWire r ttl := by
  have hmem : ∀ w ∈ sortedWires ttl rrset, ∃ r ∈ rrset, recordToCanonicalWire r ttl = w :=
    fun w hw => List.mem_map.mp ((sortedWires_perm ttl rrset).mem_iff.mp hw)
  apply eq_of_flatten_eq_of_pairwise
    (q := fun w w' => w.drop ((recordHead owner rtype rclass ttl).length + 2) ≤
      w'.drop ((recordHead owner rtype rclass ttl).length + 2)) ?_ ?_
    ((sortedWires_perm ttl rrset).trans (hperm.map _).symm) (sortedWires_pairwise ttl rrset) ?_ hflat
  · intro w _ w' _ hpre hle
    exact Std.le_antisymm (bytesLe_iff.mp hle) hpre.le
  · intro w hw w' hw' hpre hle
    obtain ⟨a, ha, rfl⟩ := hmem w hw
    obtain ⟨b, hb, rfl⟩ := hmem w' hw'
    have hrest := (hpre.drop ((recordHead owner rtype rclass ttl).length + 2)).le
    rw [h.drop_wire ha, h.drop_wire hb] at hle hrest
    exact h.wire_eq_of_rdata_eq ha hb (Std.le_antisymm hle hrest)
  · rw [List.pairwise_map]
    refine hordered.imp_of_mem ?_
    intro a b ha hb hle
    rwa [h.drop_wire (hperm.mem_iff.mp ha), h.drop_wire (hperm.mem_iff.mp hb)]

/-- Of two records that are in order by either rule, the length fields ascend. -/
theorem IsRrset.lengthsAscend (h : IsRrset owner rtype rclass rrset) (ha : a ∈ rrset)
    (hb : b ∈ rrset)
    (hwire : bytesLe (recordToCanonicalWire a ttl) (recordToCanonicalWire b ttl) = true)
    (hrdata : recordRdataCanonical a ≤ recordRdataCanonical b) : LengthsAscend a b := by
  constructor
  · intro _
    rcases (h.wire_le_iff ha hb).mp hwire with hlt | ⟨heq, _⟩
    · exact UInt16.le_of_lt hlt
    · exact UInt16.le_of_eq heq
  · intro hrdata'
    rw [rdlengthField, rdlengthField, Std.le_antisymm hrdata hrdata']
    exact UInt16.le_refl _

/-- Data that has the records in the order of their RDATA shows that their length
fields ascend. -/
theorem IsRrset.lengths_of_canonicalOrder {rrsig : ResourceRecord} {s : Rrsig}
    (h : IsRrset owner rtype rclass rrset) (hs : rrsig.parsed = some (.rrsig s))
    (hsigned : SignedInCanonicalOrder rrsig s rrset) (ha : a ∈ rrset) (hb : b ∈ rrset) :
    LengthsAscend a b := by
  obtain ⟨ordered, hperm, hordered, hdata⟩ := hsigned
  rw [buildSignedData_eq hs, List.flatMap_def] at hdata
  have hwires := h.sortedWires_of_flatten hperm hordered (List.append_cancel_left hdata)
  have hsorted := sortedWires_pairwise s.originalTtl rrset
  rw [hwires, List.pairwise_map] at hsorted
  have hascend : ordered.Pairwise LengthsAscend := by
    refine (hsorted.and hordered).imp_of_mem ?_
    intro a b ha hb hle
    exact h.lengthsAscend (hperm.mem_iff.mp ha) (hperm.mem_iff.mp hb) hle.1 hle.2
  have hself : ∀ r ∈ ordered, LengthsAscend r r :=
    fun _ _ => ⟨fun _ => UInt16.le_refl _, fun _ => UInt16.le_refl _⟩
  exact hascend.forall_of_forall hself (hperm.mem_iff.mpr ha) (hperm.mem_iff.mpr hb)

end CanonicalOrder

/-- **The records are signed in the order of their canonical RDATA exactly if
their length fields ascend with it.** -/
theorem canonical_order_iff (rrsig : ResourceRecord) (s : Rrsig) (owner : Bytes)
    (rtype rclass : UInt16) (rrset : List ResourceRecord) (hs : rrsig.parsed = some (.rrsig s))
    (hset : IsRrset owner rtype rclass rrset) :
    SignedInCanonicalOrder rrsig s rrset ↔
      ∀ a ∈ rrset, ∀ b ∈ rrset,
        recordRdataCanonical a ≤ recordRdataCanonical b → rdlengthField a ≤ rdlengthField b := by
  constructor
  · intro hsigned a ha b hb
    exact (hset.lengths_of_canonicalOrder hs hsigned ha hb).1
  · intro hlengths
    obtain ⟨ordered, hperm, hwires⟩ := sortedWires_eq_map s.originalTtl rrset
    have hsorted := sortedWires_pairwise s.originalTtl rrset
    rw [hwires, List.pairwise_map] at hsorted
    have hordered : ordered.Pairwise
        fun a b => recordRdataCanonical a ≤ recordRdataCanonical b := by
      refine hsorted.imp_of_mem ?_
      intro a b ha hb
      exact hset.rdata_le_of_wire_le hlengths (hperm.mem_iff.mp ha) (hperm.mem_iff.mp hb)
    have hdata : buildSignedData rrsig rrset =
        rrsigFields s ++ ordered.flatMap fun r => recordToCanonicalWire r s.originalTtl := by
      rw [buildSignedData_eq hs, hwires, List.flatMap_def]
    exact ⟨ordered, hperm, hordered, hdata⟩

/-- The signature of the zone `test` over its NS records. -/
def serverSignature : Rrsig := ⟨2, 15, 1, 3600, 1710000000, 1690000000, 63441, sampleZoneName, []⟩

theorem servers_isRrset (hosts : List Bytes) :
    IsRrset sampleZoneName 2 1 (hosts.map (serverRecord sampleZoneName 3600)) := by
  intro r hr
  obtain ⟨host, _, rfl⟩ := List.mem_map.mp hr
  exact ⟨.inl rfl, rfl, rfl⟩

theorem canonical_order_twoServers :
    SignedInCanonicalOrder (sampleRecord sampleZoneName 46 (.rrsig serverSignature)) serverSignature
      ([[1, 98, 0], [1, 97, 0]].map (serverRecord sampleZoneName 3600)) :=
  (canonical_order_iff _ serverSignature sampleZoneName 2 1 _ rfl (servers_isRrset _)).mpr
    (by decide +kernel)

/-- The name `cc` is shorter than `a.bb`, so it comes first in the signed data; in
the canonical order it comes second. -/
theorem shorter_rdata_first :
    let rrsig := sampleRecord sampleZoneName 46 (.rrsig serverSignature)
    let abb := serverRecord sampleZoneName 3600 [1, 97, 2, 98, 98, 0]
    let cc := serverRecord sampleZoneName 3600 [2, 99, 99, 0]
    recordRdataCanonical abb ≤ recordRdataCanonical cc ∧
      buildSignedData rrsig [abb, cc] = rrsigFields serverSignature ++
        recordToCanonicalWire cc 3600 ++ recordToCanonicalWire abb 3600 ∧
      ¬ SignedInCanonicalOrder rrsig serverSignature [abb, cc] := by
  intro rrsig abb cc
  have hrdata : recordRdataCanonical abb ≤ recordRdataCanonical cc := by decide +kernel
  have hlengths : ¬ rdlengthField abb ≤ rdlengthField cc := by decide +kernel
  have hdata : buildSignedData rrsig [abb, cc] = rrsigFields serverSignature ++
      recordToCanonicalWire cc 3600 ++ recordToCanonicalWire abb 3600 := by decide +kernel
  refine ⟨hrdata, hdata, fun hsigned => hlengths ?_⟩
  have hset : IsRrset sampleZoneName 2 1 [abb, cc] :=
    servers_isRrset [[1, 97, 2, 98, 98, 0], [2, 99, 99, 0]]
  exact (hset.lengths_of_canonicalOrder rfl hsigned (by simp) (by simp)).1 hrdata

end FastDns.Dnssec
