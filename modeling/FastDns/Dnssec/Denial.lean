/-
Denial of existence in `src/dnssec/mod.rs`: RRsets, NSEC proofs and
`validate_denial`.

`group_rrsets` makes one group of each owner and type (`mem_groupRrsets`). The
NSEC part of a denial is embedded in full. The part for NSEC3 selects the records
the NSEC part has already handled, so no record is left for it.

The keys for the signatures in the authority section come from the cache alone.
`verifyAuthorityRrsigs_yields` shows that they never verify one, and
`validateDenial_yields` that every denial is therefore indeterminate.
-/

import FastDns.Dnssec.ChainOfTrust
import FastDns.Resolver.CachedKeys

namespace FastDns.Dnssec

open FastDns.Lib FastDns.Dns FastDns.Resolver

/-! ### The shared cache -/

/-- A call on the cache under its lock, after what other tasks did to it. -/
def withCache {α : Type} (f : Nat → DnsCache → α × DnsCache) : Validate α := do
  let world ← Run.read
  let n ← nextReading
  let s ← Run.get
  let (a, cache) := f (world.clock n) (s.cache.runOps (world.others n))
  Run.modify fun s => { s with cache }
  pure a

/-- `cache.write().unwrap().lookup(..)` -/
def lookupCache (key : CacheKey) : Validate (Option (List ResourceRecord × UInt32)) :=
  withCache fun now cache => cache.lookup now key

/-- `cache.insert_records(..)` -/
def insertCache (records : List ResourceRecord) : Validate Unit :=
  withCache fun now cache => ((), cache.insertRecords now records)

/-! ### RRsets -/

/-- A parsed signature. -/
def isRrsig (r : ResourceRecord) : Bool :=
  match r.parsed with
  | some (.rrsig _) => true
  | _ => false

/-- Records of one owner and type. -/
structure Rrset where
  name : Bytes
  qtype : UInt16
  records : List ResourceRecord
deriving DecidableEq, Repr

/-- One round of `group_rrsets`: the record joins the first group of its owner and
type, or starts one. -/
def addToGroup (record : ResourceRecord) : List Rrset → List Rrset
  | [] => [⟨record.name, record.rtype, [record]⟩]
  | group :: groups =>
      if group.name = record.name ∧ group.qtype = record.rtype then
        { group with records := group.records ++ [record] } :: groups
      else group :: addToGroup record groups

/-- `group_rrsets` -/
def groupRrsets (records : List ResourceRecord) : List Rrset :=
  (records.filter fun r => !isRrsig r).foldl (fun groups r => addToGroup r groups) []

/-- A signature over the RRset, by a signer with the name of its owner. -/
def signatureMatches (name : Bytes) (qtype : UInt16) (r : ResourceRecord) : Bool :=
  match r.parsed with
  | some (.rrsig s) => s.signerName = name && s.typeCovered = qtype
  | _ => false

/-! ### NSEC records -/

/-- The loop of `type_bitmap_contains` over the window blocks. -/
def bitmapLoop (targetWindow : UInt8) (byteOffset : Nat) (bitMask : UInt8) : Nat → Bytes → Bool
  | fuel + 1, window :: len :: rest =>
      if rest.length < len.toNat then false
      else if window = targetWindow ∧ byteOffset < len.toNat then
        rest.getD byteOffset 0 &&& bitMask != 0
      else bitmapLoop targetWindow byteOffset bitMask fuel (rest.drop len.toNat)
  | _, _ => false

/-- `type_bitmap_contains` -/
def typeBitmapContains (bitmap : Bytes) (qtype : UInt16) : Bool :=
  let targetWindow := (qtype / 256).toUInt8
  let targetBit := (qtype % 256).toUInt8
  bitmapLoop targetWindow (targetBit / 8).toNat (0x80 >>> (targetBit % 8)) bitmap.length bitmap

/-- `name.split('.').filter(|l| !l.is_empty())` -/
def dotLabels (name : Bytes) : List Bytes := (name.splitOn 46).filter fun label => !label.isEmpty

/-- Labels as bytes in lower case. -/
def labelOrder (a b : Bytes) : Ordering := compare (a.map asciiLower) (b.map asciiLower)

/-- The loop of `canonical_dns_name_order` over the labels both names have. -/
def commonLabelsOrder : List Bytes → List Bytes → Ordering
  | la :: a, lb :: b => (labelOrder la lb).then (commonLabelsOrder a b)
  | _, _ => .eq

/-- `canonical_dns_name_order` -/
def canonicalDnsNameOrder (a b : Bytes) : Ordering :=
  (commonLabelsOrder (dotLabels a).reverse (dotLabels b).reverse).then
    (compare (dotLabels a).length (dotLabels b).length)

/-- `nsec_covers_name`: an owner not before its next name is the last of the zone. -/
def nsecCoversName (owner next qname : Bytes) : Bool :=
  let ownerNext := canonicalDnsNameOrder owner next
  let qnameOwner := canonicalDnsNameOrder qname owner
  let qnameNext := canonicalDnsNameOrder qname next
  if ownerNext = .gt ∨ ownerNext = .eq then qnameOwner = .gt || qnameNext = .lt
  else qnameOwner = .gt && qnameNext = .lt

/-- `str::eq_ignore_ascii_case` -/
def eqIgnoreCase (a b : Bytes) : Bool := a.map asciiLower = b.map asciiLower

def isNsec (r : ResourceRecord) : Bool :=
  match r.parsed with
  | some (.nsec _ _) => true
  | _ => false

/-- `closest_encloser`: the longest suffix of the name that owns an NSEC record. -/
def closestEncloser (qname : Bytes) (zoneNsecs : List ResourceRecord) : Option Bytes :=
  ((dotLabels qname).tails.dropLast.map [46].intercalate).find? fun candidate =>
    zoneNsecs.any fun r => isNsec r && eqIgnoreCase (labelsToString r.name) candidate

/-- `nsec_proves_nodata`; 5 is CNAME. -/
def nsecProvesNodata (owner qname bitmap : Bytes) (qtype : UInt16) : Bool :=
  eqIgnoreCase owner qname && !typeBitmapContains bitmap qtype && !typeBitmapContains bitmap 5

/-- The record covers the gap a name is in. -/
def nsecCovers (name : Bytes) (r : ResourceRecord) : Bool :=
  match r.parsed with
  | some (.nsec nextDomain _) =>
      nsecCoversName (labelsToString r.name) (labelsToString nextDomain) name
  | _ => false

/-- `wildcard_denied`; without a closest encloser, the name's own gap is enough. -/
def wildcardDenied (nsecs : List ResourceRecord) (qname : Bytes) : Bool :=
  match closestEncloser qname nsecs with
  | some encloser =>
      let wildcard := 42 :: 46 :: encloser
      nsecs.any fun r =>
        nsecCovers wildcard r || (isNsec r && eqIgnoreCase (labelsToString r.name) wildcard)
  | none => true

/-- `nodata_proven` -/
def nodataProven (nsecs : List ResourceRecord) (qname : Bytes) (qtype : UInt16) : Bool :=
  nsecs.any fun r => match r.parsed with
    | some (.nsec _ typeBitMaps) =>
        nsecProvesNodata (labelsToString r.name) qname typeBitMaps qtype
    | _ => false

/-- What verified NSEC records say. -/
def nsecVerdict (nsecs : List ResourceRecord) (qname : Bytes) (qtype : UInt16)
    (isNxdomain : Bool) : DnssecStatus :=
  if isNxdomain then
    if nsecs.any (nsecCovers qname) && wildcardDenied nsecs qname then .secure else .bogus
  else if nodataProven nsecs qname qtype then .secure
  else .bogus

/-! ### The verdict on a denial -/

/-- One round of `verify_authority_rrsigs`. -/
def verifyDenialRrset (allRrsigs : List ResourceRecord) (rrset : Rrset) : Validate Bool :=
  match allRrsigs.find? (signatureMatches rrset.name rrset.qtype) with
  | none => pure false
  | some rrsig => match rrsig.parsed with
    | some (.rrsig s) => do
        let world ← Run.read
        let now ← readSystemTime
        if !isRrsigTimeValid now s.signatureExpiration s.signatureInception then pure false
        else
          let cached ← lookupCache (s.signerName, 48, 1)
          pure (match cached with
            | some (dnskeys, _) =>
                dnskeys.any (keyVerifies world.crypto s (buildSignedData rrsig rrset.records))
            | none => false)
    | _ => pure true

/-- `verify_authority_rrsigs` -/
def verifyAuthorityRrsigs (authorities allRrsigs : List ResourceRecord) (denialType : UInt16) :
    Validate Bool := do
  let denialRrsets := groupRrsets (rrsetOf denialType authorities)
  let verified ← denialRrsets.allM (verifyDenialRrset allRrsigs)
  pure (verified && !denialRrsets.isEmpty)

/-- `validate_denial` -/
def validateDenial (authorities allRrsigs : List ResourceRecord) (qname : Bytes) (qtype : UInt16)
    (isNxdomain : Bool) : Validate DnssecStatus := do
  let nsecs := authorities.filter isNsec
  if !nsecs.isEmpty then
    let verified ← verifyAuthorityRrsigs authorities allRrsigs 47
    pure (if verified then nsecVerdict nsecs qname qtype isNxdomain else .indeterminate)
  else pure .indeterminate

/-! ### What the groups are -/

/-- The RRset of an owner and a type among records, signatures left out. -/
def rrsetAt (records : List ResourceRecord) (name : Bytes) (qtype : UInt16) : Rrset :=
  ⟨name, qtype, (records.filter fun r => !isRrsig r).filter fun r =>
    r.name = name ∧ r.rtype = qtype⟩

/-- Owner and type. -/
def Rrset.key (g : Rrset) : Bytes × UInt16 := (g.name, g.qtype)

/-- One group for each owner and type, with all its records. -/
structure Grouped (l : List ResourceRecord) (groups : List Rrset) : Prop where
  distinct : (groups.map Rrset.key).Nodup
  records : ∀ g ∈ groups, g.records = l.filter fun r => r.name = g.name ∧ r.rtype = g.qtype
  keys : ∀ k, k ∈ groups.map Rrset.key ↔ k ∈ l.map fun r => (r.name, r.rtype)

section Groups

variable {record : ResourceRecord} {groups : List Rrset} {l : List ResourceRecord}

/-- A record joins the group of its owner and type. -/
theorem keys_addToGroup_of_mem (h : (record.name, record.rtype) ∈ groups.map Rrset.key) :
    (addToGroup record groups).map Rrset.key = groups.map Rrset.key := by
  induction groups with
  | nil => cases h
  | cons group groups ih =>
      unfold addToGroup
      by_cases hkey : group.name = record.name ∧ group.qtype = record.rtype
      · rw [if_pos hkey]
        rfl
      · rw [if_neg hkey, List.map_cons, List.map_cons]
        rcases List.mem_cons.mp h with heq | hrest
        · simp only [Rrset.key, Prod.mk.injEq] at heq
          exact absurd ⟨heq.1.symm, heq.2.symm⟩ hkey
        · rw [ih hrest]

/-- Or it is a new group at the end. -/
theorem addToGroup_of_not_mem (h : (record.name, record.rtype) ∉ groups.map Rrset.key) :
    addToGroup record groups = groups ++ [⟨record.name, record.rtype, [record]⟩] := by
  induction groups with
  | nil => rfl
  | cons group groups ih =>
      rw [List.map_cons, List.mem_cons, not_or] at h
      have hkey : ¬ (group.name = record.name ∧ group.qtype = record.rtype) := fun hk =>
        h.1 (Prod.ext hk.1.symm hk.2.symm)
      rw [addToGroup, if_neg hkey, ih h.2, List.cons_append]

/-- With distinct keys, only the group of the record changes. -/
theorem mem_addToGroup {g : Rrset} (hdistinct : (groups.map Rrset.key).Nodup)
    (hmem : (record.name, record.rtype) ∈ groups.map Rrset.key)
    (hg : g ∈ addToGroup record groups) :
    (g ∈ groups ∧ g.key ≠ (record.name, record.rtype)) ∨
      ∃ old ∈ groups, old.key = (record.name, record.rtype) ∧
        g = { old with records := old.records ++ [record] } := by
  induction groups with
  | nil => cases hmem
  | cons group groups ih =>
      rw [List.map_cons, List.nodup_cons] at hdistinct
      unfold addToGroup at hg
      by_cases hkey : group.name = record.name ∧ group.qtype = record.rtype
      · rw [if_pos hkey] at hg
        have hgroup : group.key = (record.name, record.rtype) := Prod.ext hkey.1 hkey.2
        rcases List.mem_cons.mp hg with rfl | hrest
        · exact .inr ⟨group, List.mem_cons_self, hgroup, rfl⟩
        · refine .inl ⟨List.mem_cons_of_mem group hrest, fun hsame => hdistinct.1 ?_⟩
          rw [hgroup, ← hsame]
          exact List.mem_map_of_mem hrest
      · rw [if_neg hkey] at hg
        have hgroup : group.key ≠ (record.name, record.rtype) := fun hsame =>
          hkey ⟨congrArg Prod.fst hsame, congrArg Prod.snd hsame⟩
        rcases List.mem_cons.mp hg with rfl | hrest
        · exact .inl ⟨List.mem_cons_self, hgroup⟩
        · have hmem' := (List.mem_cons.mp hmem).resolve_left (Ne.symm hgroup)
          rcases ih hdistinct.2 hmem' hrest with ⟨hold, hne⟩ | ⟨old, hold, hsame, heq⟩
          · exact .inl ⟨List.mem_cons_of_mem group hold, hne⟩
          · exact .inr ⟨old, List.mem_cons_of_mem group hold, hsame, heq⟩

/-- A record of an owner and type that have a group. -/
theorem Grouped.join (h : Grouped l groups)
    (hmem : (record.name, record.rtype) ∈ groups.map Rrset.key) :
    Grouped (l ++ [record]) (addToGroup record groups) := by
  have hkeys := keys_addToGroup_of_mem hmem
  refine ⟨hkeys ▸ h.distinct, ?_, ?_⟩
  · intro g hg
    rcases mem_addToGroup h.distinct hmem hg with ⟨hold, hne⟩ | ⟨old, hold, hsame, rfl⟩
    · have hother : ¬ (record.name = g.name ∧ record.rtype = g.qtype) := fun hk =>
        hne (Prod.ext hk.1.symm hk.2.symm)
      simp [h.records g hold, hother]
    · have hself : record.name = old.name ∧ record.rtype = old.qtype :=
        ⟨congrArg Prod.fst hsame.symm, congrArg Prod.snd hsame.symm⟩
      simp [h.records old hold, hself]
  · intro k
    rw [hkeys, List.map_append, List.mem_append, ← h.keys]
    refine ⟨.inl, fun hk => hk.elim id fun hlast => ?_⟩
    rw [List.mem_singleton.mp hlast]
    exact hmem

/-- The first record of its owner and type. -/
theorem Grouped.start (h : Grouped l groups)
    (hnew : (record.name, record.rtype) ∉ groups.map Rrset.key) :
    Grouped (l ++ [record]) (groups ++ [⟨record.name, record.rtype, [record]⟩]) := by
  have hnone : ∀ r ∈ l, ¬ (r.name = record.name ∧ r.rtype = record.rtype) := by
    intro r hr hk
    refine hnew ((h.keys _).mpr (List.mem_map.mpr ⟨r, hr, ?_⟩))
    rw [hk.1, hk.2]
  refine ⟨?_, ?_, ?_⟩
  · rw [List.map_append, List.nodup_append]
    refine ⟨h.distinct, List.nodup_singleton _, ?_⟩
    rintro k hk _ hlast rfl
    have hsame : k = (record.name, record.rtype) := List.mem_singleton.mp hlast
    exact hnew (hsame ▸ hk)
  · intro g hg
    rcases List.mem_append.mp hg with hold | hlast
    · have hother : ¬ (record.name = g.name ∧ record.rtype = g.qtype) := fun hk =>
        hnew (List.mem_map.mpr ⟨g, hold, Prod.ext hk.1.symm hk.2.symm⟩)
      simp [h.records g hold, hother]
    · rw [List.mem_singleton.mp hlast, List.filter_append,
        List.filter_eq_nil_iff.mpr (by simpa using hnone)]
      simp
  · intro k
    rw [List.map_append, List.map_append, List.mem_append, List.mem_append, h.keys]
    rfl

theorem Grouped.add (h : Grouped l groups) (record : ResourceRecord) :
    Grouped (l ++ [record]) (addToGroup record groups) := by
  by_cases hmem : (record.name, record.rtype) ∈ groups.map Rrset.key
  · exact h.join hmem
  · rw [addToGroup_of_not_mem hmem]
    exact h.start hmem

theorem Grouped.nil : Grouped [] [] :=
  ⟨List.nodup_nil, fun _ hg => absurd hg List.not_mem_nil, fun _ => Iff.rfl⟩

theorem Grouped.foldl (h : Grouped l groups) (rest : List ResourceRecord) :
    Grouped (l ++ rest) (rest.foldl (fun groups r => addToGroup r groups) groups) := by
  induction rest generalizing l groups with
  | nil => simpa using h
  | cons record rest ih => simpa using ih (h.add record)

/-- The groups are the RRsets of the records, each once. -/
theorem mem_groupRrsets {records : List ResourceRecord} {g : Rrset} :
    g ∈ groupRrsets records ↔
      ∃ r ∈ records, isRrsig r = false ∧ g = rrsetAt records r.name r.rtype := by
  have hgrouped : Grouped (records.filter fun r => !isRrsig r) (groupRrsets records) :=
    Grouped.nil.foldl _
  have heq : ∀ g ∈ groupRrsets records, g = rrsetAt records g.name g.qtype := by
    intro g hg
    rw [rrsetAt, ← hgrouped.records g hg]
  constructor
  · intro hg
    obtain ⟨r, hr, hkey⟩ := List.mem_map.mp ((hgrouped.keys g.key).mp (List.mem_map_of_mem hg))
    obtain ⟨hrecord, hunsigned⟩ := List.mem_filter.mp hr
    have hname : r.name = g.name := congrArg Prod.fst hkey
    have htype : r.rtype = g.qtype := congrArg Prod.snd hkey
    exact ⟨r, hrecord, by simpa using hunsigned, by rw [hname, htype]; exact heq g hg⟩
  · rintro ⟨r, hr, hunsigned, rfl⟩
    have hfiltered : r ∈ records.filter fun r => !isRrsig r :=
      List.mem_filter.mpr ⟨hr, by simp [hunsigned]⟩
    have hkey : (r.name, r.rtype) ∈ (groupRrsets records).map Rrset.key :=
      (hgrouped.keys _).mpr (List.mem_map.mpr ⟨r, hfiltered, rfl⟩)
    obtain ⟨g, hg, hsame⟩ := List.mem_map.mp hkey
    have hname : g.name = r.name := congrArg Prod.fst hsame
    have htype : g.qtype = r.rtype := congrArg Prod.snd hsame
    rw [← hname, ← htype, ← heq g hg]
    exact hg

end Groups

/-! ### Denials and the cache -/

/-- The cache of the state was built by the calls of its interface. -/
def CacheBuilt (s : ValidationSt) : Prop := s.cache.Reachable

section Verdict

variable {world : World}

theorem reachable_runOps {c : DnsCache} (h : c.Reachable) (hist : History) :
    (c.runOps hist).Reachable := by
  obtain ⟨before, rfl | ⟨max, rfl⟩⟩ := h
  · exact ⟨before ++ hist, .inl (DnsCache.runOps_append _ _ _).symm⟩
  · exact ⟨before ++ hist, .inr ⟨max, (DnsCache.runOps_append _ _ _).symm⟩⟩

theorem parsed_of_lookup {c : DnsCache} (h : c.Reachable) {now : Nat} {key : CacheKey}
    {records : List ResourceRecord} {least : UInt32}
    (hlookup : (c.lookup now key).1 = some (records, least)) : ∀ r ∈ records, r.parsed = none := by
  have hserved : c.served now key = records := by rw [DnsCache.served, hlookup]; rfl
  obtain ⟨hist, rfl | ⟨max, rfl⟩⟩ := h
  · rw [← hserved]
    exact DnsCache.parsed_served none hist now key
  · rw [← hserved]
    exact DnsCache.parsed_served (some max) hist now key

theorem nextReading_yields : Run.Yields world CacheBuilt nextReading fun _ => True := by
  intro s hs n s' heq
  cases heq
  exact ⟨hs, trivial⟩

theorem readSystemTime_yields :
    Run.Yields world CacheBuilt readSystemTime fun _ => True := by
  refine Run.yields_bind Run.yields_read fun _ _ => ?_
  exact Run.yields_bind nextReading_yields fun _ _ => Run.yields_pure trivial

/-- A call on the cache, seen as calls of its interface. -/
theorem withCache_yields {α : Type} {f : Nat → DnsCache → α × DnsCache} {Q : α → Prop}
    (hf : ∀ now c, c.Reachable → (f now c).2.Reachable ∧ Q (f now c).1) :
    Run.Yields world CacheBuilt (withCache f) Q := by
  intro s hs a s' heq
  cases heq
  exact hf _ _ (reachable_runOps hs _)

/-- What comes out of the cache has no parsed form. -/
theorem lookupCache_yields (key : CacheKey) :
    Run.Yields world CacheBuilt (lookupCache key) fun hit =>
      ∀ records least, hit = some (records, least) → ∀ r ∈ records, r.parsed = none := by
  refine withCache_yields fun now c hc => ⟨?_, fun records least => parsed_of_lookup hc⟩
  exact reachable_runOps hc [(now, .lookup key)]

theorem insertCache_yields (records : List ResourceRecord) :
    Run.Yields world CacheBuilt (insertCache records) fun _ => True := by
  refine withCache_yields fun now c hc => ⟨?_, trivial⟩
  rw [DnsCache.insertRecords_eq_runOps]
  exact reachable_runOps hc _

theorem isRrsig_of_signatureMatches {name : Bytes} {qtype : UInt16} {r : ResourceRecord}
    (h : signatureMatches name qtype r = true) : ∃ s, r.parsed = some (.rrsig s) := by
  unfold signatureMatches at h
  split at h
  · rename_i s hs
    exact ⟨s, hs⟩
  · cases h

theorem verifyDenialRrset_yields (allRrsigs : List ResourceRecord) (rrset : Rrset) :
    Run.Yields world CacheBuilt (verifyDenialRrset allRrsigs rrset) fun b => b = false := by
  unfold verifyDenialRrset
  split
  · exact Run.yields_pure rfl
  rename_i rrsig hfind
  obtain ⟨sig, hsig⟩ := isRrsig_of_signatureMatches (List.find?_some hfind)
  split
  · refine Run.yields_bind Run.yields_read fun world' _ => ?_
    refine Run.yields_bind readSystemTime_yields fun now _ => ?_
    split
    · exact Run.yields_pure rfl
    refine Run.yields_bind (lookupCache_yields _) fun hit hhit => Run.yields_pure ?_
    split
    · rename_i dnskeys least
      exact any_keyVerifies_unparsed (hhit dnskeys least rfl)
    · rfl
  · rename_i hno
    exact absurd hsig (hno sig)

/-- No signature in the authority section is ever verified. -/
theorem verifyAuthorityRrsigs_yields (authorities allRrsigs : List ResourceRecord)
    (denialType : UInt16) :
    Run.Yields world CacheBuilt (verifyAuthorityRrsigs authorities allRrsigs denialType)
      fun b => b = false := by
  unfold verifyAuthorityRrsigs
  cases groupRrsets (rrsetOf denialType authorities) with
  | nil => exact Run.yields_pure rfl
  | cons rrset rest =>
      have hall : Run.Yields world CacheBuilt
          ((rrset :: rest).allM (verifyDenialRrset allRrsigs)) fun b => b = false := by
        refine Run.yields_bind (verifyDenialRrset_yields allRrsigs rrset) fun b hb => ?_
        subst hb
        exact Run.yields_pure rfl
      refine Run.yields_bind hall fun b hb => Run.yields_pure ?_
      rw [hb, Bool.false_and]

/-- **Every denial is indeterminate**, whatever its NSEC records say. -/
theorem validateDenial_yields (authorities allRrsigs : List ResourceRecord) (qname : Bytes)
    (qtype : UInt16) (isNxdomain : Bool) :
    Run.Yields world CacheBuilt (validateDenial authorities allRrsigs qname qtype isNxdomain)
      fun status => status = .indeterminate := by
  unfold validateDenial
  dsimp only
  split
  · refine Run.yields_bind (verifyAuthorityRrsigs_yields _ _ _) fun verified hverified => ?_
    exact Run.yields_pure (by rw [hverified]; rfl)
  · exact Run.yields_pure rfl

end Verdict

end FastDns.Dnssec
