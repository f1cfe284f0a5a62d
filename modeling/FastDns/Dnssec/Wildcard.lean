/-
Signatures over wildcards (`build_signed_data`, `src/dnssec/mod.rs`).

A signature says in its `labels` field how many labels the owner had when it was
signed. An answer whose owner has more was made from a wildcard, and the signed bytes
have the wildcard as owner. The program copies the field into the signed data and
does not look at it otherwise: the owner is always the one of the answer.

**`wildcard_transparent_iff`**: so the signed data of an expanded answer is that of
the wildcard only if both owners have one canonical name, which for names of
ordinary text means that the owner is the wildcard.
-/

import FastDns.Dnssec.SignedData

namespace FastDns.Dnssec

open FastDns.Lib FastDns.Dns

/-- The number of labels of a name. -/
def labelCount (name : Bytes) : Nat := (rawLabels name).length

/-- `*` and the rightmost `m` labels. -/
def wildcardLabels (m : Nat) (labels : List Bytes) : List Bytes :=
  [42] :: labels.drop (labels.length - m)

/-- The wildcard a name with more than `m` labels was made from. -/
def wildcardName (m : Nat) (name : Bytes) : Bytes := wireName (wildcardLabels m (rawLabels name))

/-- The record with the wildcard as owner. -/
def asWildcard (m : Nat) (r : ResourceRecord) : ResourceRecord :=
  { r with name := wildcardName m r.name }

section Wildcards

variable {m : Nat} {labels : List Bytes} {a b owner : Bytes} {rtype rclass : UInt16} {ttl : UInt32}
  {rrset : List ResourceRecord}

theorem LabelsOk.wildcardLabels (h : LabelsOk labels) : LabelsOk (wildcardLabels m labels) :=
  labelsOk_cons.mpr ⟨by decide, fun label hl => h label (List.mem_of_mem_drop hl)⟩

theorem lowerAll_wildcardLabels :
    lowerAll (wildcardLabels m labels) = wildcardLabels m (lowerAll labels) := by
  have hstar : ([42] : Bytes).map asciiLower = [42] := by decide
  rw [wildcardLabels, wildcardLabels, lowerAll_cons, hstar, lowerAll, lowerAll, List.map_drop,
    List.length_map]

theorem wireName_wildcardName (ha : WireName a) : WireName (wildcardName m a) := by
  obtain ⟨as, has, rfl⟩ := ha
  rw [wildcardName, rawLabels_wireName has]
  exact ⟨_, LabelsOk.wildcardLabels has, rfl⟩

/-- Two spellings of a name have two spellings of the wildcard. -/
theorem SpelledAs.wildcardName (h : SpelledAs a b) (ha : WireName a) (hb : WireName b) :
    SpelledAs (wildcardName m a) (wildcardName m b) := by
  rcases h with rfl | heq
  · exact .inl rfl
  · obtain ⟨as, has, rfl⟩ := ha
    obtain ⟨bs, hbs, rfl⟩ := hb
    right
    rw [domainNamesEqual_wireName has hbs] at heq
    rw [Dnssec.wildcardName, Dnssec.wildcardName, rawLabels_wireName has, rawLabels_wireName hbs,
      domainNamesEqual_wireName (LabelsOk.wildcardLabels has) (LabelsOk.wildcardLabels hbs),
      lowerAll_wildcardLabels, lowerAll_wildcardLabels, heq]

theorem IsRrset.wildcards (h : IsRrset owner rtype rclass rrset) (howner : WireName owner)
    (hnames : ∀ r ∈ rrset, WireName r.name) :
    IsRrset (wildcardName m owner) rtype rclass (rrset.map (asWildcard m)) := by
  intro r hr
  obtain ⟨r, hmem, rfl⟩ := List.mem_map.mp hr
  obtain ⟨hname, htype, hclass⟩ := h r hmem
  exact ⟨hname.wildcardName howner (hnames r hmem), htype, hclass⟩

/-- Labels that are those of the wildcard up to case are those of the wildcard. -/
theorem eq_wildcardLabels (h : lowerAll labels = lowerAll (wildcardLabels m labels)) :
    labels = wildcardLabels m labels := by
  have hlen := congrArg List.length h
  simp only [lowerAll, wildcardLabels, List.length_map, List.length_cons, List.length_drop] at hlen
  cases labels with
  | nil => cases h
  | cons label rest =>
      have hone : (label :: rest).length - m = 1 := by
        rw [List.length_cons] at hlen ⊢
        omega
      rw [wildcardLabels, hone, List.drop_one, List.tail_cons] at h ⊢
      rw [lowerAll_cons, lowerAll_cons, List.cons.injEq] at h
      have hstar : label = [42] := by
        have hlower : label.map asciiLower = [42] := h.1.trans (by decide)
        obtain ⟨x, rfl, hx⟩ := List.map_eq_singleton_iff.mp hlower
        rw [(asciiLower_eq_iff (by decide)).mp hx]
      rw [hstar]

theorem textSafe_wildcardName (howner : WireName owner) (hsafe : TextSafe owner) :
    TextSafe (wildcardName m owner) := by
  obtain ⟨labels, hlabels, rfl⟩ := howner
  rw [TextSafe, rawLabels_wireName hlabels] at hsafe
  rw [wildcardName, rawLabels_wireName hlabels, TextSafe,
    rawLabels_wireName (LabelsOk.wildcardLabels hlabels)]
  intro label hl
  rcases List.mem_cons.mp hl with rfl | hl
  · exact ⟨by decide, by decide⟩
  · exact hsafe label (List.mem_of_mem_drop hl)

/-- For names of text, only the wildcard itself has its canonical name. -/
theorem canonicalName_wildcardName (howner : WireName owner) (hsafe : TextSafe owner) :
    canonicalName owner = canonicalName (wildcardName m owner) ↔ owner = wildcardName m owner := by
  constructor
  · intro h
    rw [(canonicalName_eq_iff howner).mpr hsafe,
      (canonicalName_eq_iff (wireName_wildcardName howner)).mpr
        (textSafe_wildcardName howner hsafe)] at h
    obtain ⟨labels, hlabels, rfl⟩ := howner
    have hwild := LabelsOk.wildcardLabels (m := m) hlabels
    rw [wildcardName, rawLabels_wireName hlabels] at h ⊢
    rw [map_asciiLower_wireName hlabels, map_asciiLower_wireName hwild] at h
    exact congrArg wireName (eq_wildcardLabels (wireName_inj hlabels.lowerAll hwild.lowerAll h))
  · exact congrArg canonicalName

theorem IsRrset.length_wire {r : ResourceRecord} (h : IsRrset owner rtype rclass rrset)
    (hr : r ∈ rrset) :
    (recordToCanonicalWire r ttl).length =
      (canonicalName owner).length + 10 + (recordRdataCanonical r).length := by
  rw [h.recordToCanonicalWire_eq hr]
  simp only [recordHead, List.length_append, length_u16ToBeBytes, length_u32ToBeBytes]
  omega

/-- The length of the signed records: the owner is counted with each of them. -/
theorem IsRrset.length_flatten (h : IsRrset owner rtype rclass rrset) :
    (sortedWires ttl rrset).flatten.length =
      rrset.length * ((canonicalName owner).length + 10) +
        (rrset.map fun r => (recordRdataCanonical r).length).sum := by
  have hperm := ((sortedWires_perm ttl rrset).map List.length).sum_nat
  rw [List.length_flatten, hperm, List.map_map]
  clear hperm
  induction rrset with
  | nil => simp
  | cons r rs ih =>
      rw [List.map_cons, List.sum_cons, List.map_cons, List.sum_cons,
        ih fun r hr => h r (List.mem_cons_of_mem _ hr), List.length_cons, Nat.succ_mul,
        Function.comp_apply, h.length_wire (List.mem_cons_self ..)]
      omega

theorem IsRrset.owner_isPrefix_wire {wire : Bytes} (h : IsRrset owner rtype rclass rrset)
    (hwire : wire ∈ sortedWires ttl rrset) : canonicalName owner <+: wire := by
  obtain ⟨r, hr, rfl⟩ := List.mem_map.mp ((sortedWires_perm ttl rrset).mem_iff.mp hwire)
  rw [h.recordToCanonicalWire_eq hr, recordHead]
  simp only [List.append_assoc]
  exact List.prefix_append _ _

/-- The owner begins the signed records. -/
theorem IsRrset.owner_isPrefix (ttl : UInt32) (h : IsRrset owner rtype rclass rrset)
    (hne : rrset ≠ []) : canonicalName owner <+: (sortedWires ttl rrset).flatten := by
  cases hwires : sortedWires ttl rrset with
  | nil =>
      have hlen := (sortedWires_perm ttl rrset).length_eq
      rw [hwires, List.length_map] at hlen
      exact absurd (List.length_eq_zero_iff.mp hlen.symm) hne
  | cons wire rest =>
      have hwire := h.owner_isPrefix_wire (hwires ▸ List.mem_cons_self ..)
      exact hwire.trans (List.prefix_append _ _)

/-- The records and those of the wildcard, as they are signed: the lengths show that
the owners are equally long, and both begin the same string. -/
theorem IsRrset.sortedWires_wildcard_iff (h : IsRrset owner rtype rclass rrset)
    (hwild : IsRrset (wildcardName m owner) rtype rclass (rrset.map (asWildcard m))) :
    (sortedWires ttl rrset).flatten = (sortedWires ttl (rrset.map (asWildcard m))).flatten ↔
      rrset = [] ∨ canonicalName owner = canonicalName (wildcardName m owner) := by
  constructor
  · intro heq
    by_cases hne : rrset = []
    · exact .inl hne
    · right
      have hlen := congrArg List.length heq
      rw [h.length_flatten, hwild.length_flatten, List.length_map, List.map_map] at hlen
      have hsame := Nat.eq_of_mul_eq_mul_left (List.length_pos_iff.mpr hne)
        (Nat.add_right_cancel hlen)
      have hown := h.owner_isPrefix ttl hne
      rw [heq] at hown
      have hother := hwild.owner_isPrefix ttl (List.map_eq_nil_iff.not.mpr hne)
      exact (List.prefix_of_prefix_length_le hown hother
        (Nat.le_of_eq (Nat.add_right_cancel hsame))).eq_of_length (Nat.add_right_cancel hsame)
  · rintro (rfl | hcanonical)
    · rfl
    · have hwires : (rrset.map fun r => recordToCanonicalWire r ttl) =
          (rrset.map (asWildcard m)).map fun r => recordToCanonicalWire r ttl := by
        rw [List.map_map]
        apply List.map_congr_left
        intro r hr
        rw [h.recordToCanonicalWire_eq hr, Function.comp_apply,
          hwild.recordToCanonicalWire_eq (List.mem_map_of_mem hr), recordHead, recordHead, hcanonical]
        rfl
      rw [sortedWires_eq_iff.mpr (List.Perm.of_eq hwires)]

end Wildcards

/-- **An answer with more labels than its signature says has the signed data of the
wildcard only if it is empty or both owners have one canonical name**; for an owner of
text, only if that is the wildcard itself. With as many labels as the signature
says, the signed records have the owner of the answer. -/
theorem wildcard_transparent_iff (rrsig : ResourceRecord) (s : Rrsig) (owner : Bytes)
    (rtype rclass : UInt16) (rrset : List ResourceRecord) (hs : rrsig.parsed = some (.rrsig s))
    (howner : WireName owner) (hnames : ∀ r ∈ rrset, WireName r.name)
    (hset : IsRrset owner rtype rclass rrset) :
    (s.labels.toNat < labelCount owner →
      (buildSignedData rrsig rrset =
          buildSignedData rrsig (rrset.map (asWildcard s.labels.toNat)) ↔
        rrset = [] ∨ canonicalName owner = canonicalName (wildcardName s.labels.toNat owner)) ∧
      (TextSafe owner →
        (canonicalName owner = canonicalName (wildcardName s.labels.toNat owner) ↔
          owner = wildcardName s.labels.toNat owner))) ∧
      (labelCount owner = s.labels.toNat →
        ∃ wires : List Bytes, wires.length = rrset.length ∧
          buildSignedData rrsig rrset = rrsigFields s ++ wires.flatten ∧
          ∀ wire ∈ wires, canonicalName owner <+: wire) := by
  have hwild := hset.wildcards (m := s.labels.toNat) howner hnames
  constructor
  · intro _
    constructor
    · rw [buildSignedData_eq hs, buildSignedData_eq hs, List.append_cancel_left_eq]
      exact hset.sortedWires_wildcard_iff hwild
    · exact canonicalName_wildcardName howner
  · intro _
    have hlen := (sortedWires_perm s.originalTtl rrset).length_eq
    rw [List.length_map] at hlen
    exact ⟨sortedWires s.originalTtl rrset, hlen, buildSignedData_eq hs,
      fun wire hwire => hset.owner_isPrefix_wire hwire⟩

/-- `b.test`, whose address was made from `*.test`. -/
def expandedOwner : Bytes := [1, 98, 4, 116, 101, 115, 116, 0]

def addressOf (owner : Bytes) : ResourceRecord := sampleRecord owner 1 (.a ⟨192, 0, 2, 1⟩)

/-- The signature of `test` over the address of `*.test`: it has one label. -/
def expandedRrsig : Rrsig := ⟨1, 15, 1, 3600, 1710000000, 1690000000, 63441, sampleZoneName, []⟩

theorem wireName_expandedOwner : WireName expandedOwner :=
  ⟨[[98], [116, 101, 115, 116]], by simp [LabelsOk], rfl⟩

/-- An address of the wildcard itself is signed as such. -/
theorem wildcard_transparent_itself :
    buildSignedData (sampleRecord sampleZoneName 46 (.rrsig expandedRrsig))
        [addressOf (wildcardName 1 expandedOwner)] =
      buildSignedData (sampleRecord sampleZoneName 46 (.rrsig expandedRrsig))
        ([addressOf (wildcardName 1 expandedOwner)].map (asWildcard 1)) := by
  have howner := wireName_wildcardName (m := 1) wireName_expandedOwner
  have hset : IsRrset (wildcardName 1 expandedOwner) 1 1 [addressOf (wildcardName 1 expandedOwner)] :=
    List.forall_mem_singleton.mpr ⟨.inl rfl, rfl, rfl⟩
  exact ((wildcard_transparent_iff _ expandedRrsig _ 1 1 _ rfl howner
    (List.forall_mem_singleton.mpr howner) hset).1 (by decide)).1.mpr (.inr (by decide))

/-- An address of `b.test` is not, so the signature of the wildcard does not fit it. -/
theorem expanded_answer_signed_as_itself :
    expandedRrsig.labels.toNat < labelCount expandedOwner ∧
      wildcardName 1 expandedOwner = [1, 42, 4, 116, 101, 115, 116, 0] ∧
      buildSignedData (sampleRecord sampleZoneName 46 (.rrsig expandedRrsig))
          [addressOf expandedOwner] ≠
        buildSignedData (sampleRecord sampleZoneName 46 (.rrsig expandedRrsig))
          ([addressOf expandedOwner].map (asWildcard 1)) := by
  have hdata : buildSignedData (sampleRecord sampleZoneName 46 (.rrsig expandedRrsig))
      [addressOf expandedOwner] ≠
        buildSignedData (sampleRecord sampleZoneName 46 (.rrsig expandedRrsig))
          ([addressOf expandedOwner].map (asWildcard 1)) := by decide +kernel
  exact ⟨by decide, rfl, hdata⟩

end FastDns.Dnssec
