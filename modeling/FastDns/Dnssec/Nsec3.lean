/-
Hashed denial of existence: the part of `validate_denial` for NSEC3
(`src/dnssec/mod.rs`).

The part selects the parsed NSEC records, and with one of those the part before
it has returned. So the whole function is `validateDenial`, which leaves it out
(`validateDenialWhole_eq`). The rules themselves are written out, with hash
parameters in the place of those of a record: SHA-1 once, without salt.

`HashedZone` is the zone a resolver is shown through them: its names, and the
ring of their hashes. **`nsec3_exact`**: on records of the ring the rules deny
only what the zone denies, and given the whole ring they deny all of it. Where
the root is the only name above the one asked for, they never do.
-/

import FastDns.Dnssec.CanonicalName
import FastDns.Dnssec.Ring
import FastDns.Dnssec.Base32hex
import FastDns.Dnssec.TypeBitmap
import FastDns.Lib.NameTree
import Mathlib.Logic.Function.Iterate

namespace FastDns.Dnssec

open FastDns.Lib FastDns.Dns FastDns.Resolver

/-! ### The hashes -/

/-- `MAX_NSEC3_ITERATIONS` -/
def maxNsec3Iterations : UInt16 := 500

/-- `nsec3_hash`; each iteration hashes the hash before it, with the salt. -/
def nsec3Hash (sha1 : Bytes → Bytes) (name : Bytes) (algorithm : UInt8) (iterations : UInt16)
    (salt : Bytes) : Option Bytes :=
  if algorithm ≠ 1 then none
  else if iterations > maxNsec3Iterations then none
  else
    some ((fun hash => sha1 (hash ++ salt))^[iterations.toNat] (sha1 (nameToWire name ++ salt)))

/-- The placeholder for the parameters of a record. -/
theorem nsec3Hash_once (sha1 : Bytes → Bytes) (name : Bytes) :
    nsec3Hash sha1 name 1 0 [] = some (sha1 (nameToWire name)) := by
  rw [nsec3Hash, if_neg (by decide), if_neg (by decide), List.append_nil]
  rfl

/-! ### The rules -/

/-- `next_hashed_owner` -/
def nextHashedOwner (nextDomain : Bytes) : Bytes :=
  (nsec3OwnerHash (labelsToString nextDomain)).getD []

/-- `nsec3_any_covers` -/
def nsec3AnyCovers (decoded : List (Bytes × ResourceRecord)) (target : Bytes) : Bool :=
  decoded.any fun (oh, r) => match r.parsed with
    | some (.nsec nextDomain _) => nsec3HashInRange oh (nextHashedOwner nextDomain) target
    | _ => false

/-- `decoded`: a record whose owner is no hash is skipped. -/
def nsec3Decoded (nsec3s : List ResourceRecord) : List (Bytes × ResourceRecord) :=
  nsec3s.filterMap fun r =>
    if isNsec r then (nsec3OwnerHash (labelsToString r.name)).map fun h => (h, r) else none

/-- One round of the loop over closest enclosers; `continue` is `false`. -/
def nsec3ProvenAt (sha1 : Bytes → Bytes) (decoded : List (Bytes × ResourceRecord))
    (labels : List Bytes) (i : Nat) : Bool :=
  match nsec3Hash sha1 ([46].intercalate (labels.drop i)) 1 0 [] with
  | none => false
  | some ceHash =>
      if !decoded.any fun (oh, _) => oh == ceHash then false
      else match nsec3Hash sha1 ([46].intercalate (labels.drop (i - 1))) 1 0 [] with
        | none => false
        | some ncHash =>
            if !nsec3AnyCovers decoded ncHash then false
            else match nsec3Hash sha1 (wildcardOf ([46].intercalate (labels.drop i))) 1 0 [] with
              | none => false
              | some wcHash => nsec3AnyCovers decoded wcHash

/-- `proven`: the loop starts below the whole name and ends above the root. -/
def nsec3Proven (sha1 : Bytes → Bytes) (decoded : List (Bytes × ResourceRecord))
    (qname : Bytes) : Bool :=
  let labels := dotLabels qname
  (List.range' 1 (labels.length - 1)).any (nsec3ProvenAt sha1 decoded labels)

/-- `nodata`; 5 is CNAME. -/
def nsec3Nodata (decoded : List (Bytes × ResourceRecord)) (qnameHash : Bytes)
    (qtype : UInt16) : Bool :=
  decoded.any fun (oh, r) => match r.parsed with
    | some (.nsec _ typeBitMaps) =>
        oh == qnameHash && !typeBitmapContains typeBitMaps qtype &&
          !typeBitmapContains typeBitMaps 5
    | _ => false

/-- What verified NSEC3 records say. -/
def nsec3Verdict (sha1 : Bytes → Bytes) (nsec3s : List ResourceRecord) (qname : Bytes)
    (qtype : UInt16) (isNxdomain : Bool) : DnssecStatus :=
  match nsec3s with
  | [] => .indeterminate
  | first :: _ =>
      if isNsec first then
        match nsec3Hash sha1 qname 1 0 [] with
        | none => .indeterminate
        | some qnameHash =>
            let decoded := nsec3Decoded nsec3s
            if isNxdomain then if nsec3Proven sha1 decoded qname then .secure else .bogus
            else if nsec3Nodata decoded qnameHash qtype then .secure
            else .bogus
      else .indeterminate

/-- `validate_denial` with both its parts. -/
def validateDenialWhole (sha1 : Bytes → Bytes) (authorities allRrsigs : List ResourceRecord)
    (qname : Bytes) (qtype : UInt16) (isNxdomain : Bool) : Validate DnssecStatus := do
  let nsecs := authorities.filter isNsec
  if !nsecs.isEmpty then
    let verified ← verifyAuthorityRrsigs authorities allRrsigs 47
    pure (if verified then nsecVerdict nsecs qname qtype isNxdomain else .indeterminate)
  else
    let nsec3s := authorities.filter isNsec
    if !nsec3s.isEmpty then
      let verified ← verifyAuthorityRrsigs authorities allRrsigs 50
      pure (if verified then nsec3Verdict sha1 nsec3s qname qtype isNxdomain else .indeterminate)
    else pure .indeterminate

/-- No record is left for the second part. -/
theorem validateDenialWhole_eq (sha1 : Bytes → Bytes) (authorities allRrsigs : List ResourceRecord)
    (qname : Bytes) (qtype : UInt16) (isNxdomain : Bool) :
    validateDenialWhole sha1 authorities allRrsigs qname qtype isNxdomain =
      validateDenial authorities allRrsigs qname qtype isNxdomain := by
  unfold validateDenialWhole validateDenial
  dsimp only
  split
  · rfl
  · rfl

/-! ### What a record links -/

/-- The record stands for a hash, the one after it and the types at its name. -/
structure Links (r : ResourceRecord) (owner next typeBitMaps : Bytes) : Prop where
  owner : nsec3OwnerHash (labelsToString r.name) = some owner
  next : ∃ nextDomain, r.parsed = some (.nsec nextDomain typeBitMaps) ∧
    nextHashedOwner nextDomain = next

section Rules

variable {sha1 : Bytes → Bytes} {nsec3s : List ResourceRecord} {hash qname : Bytes}
  {qtype : UInt16} {labels : List Bytes}

/-- The decoded records are those with a link. -/
theorem any_nsec3Decoded_iff {p : Bytes × ResourceRecord → Bool} :
    (nsec3Decoded nsec3s).any p = true ↔
      ∃ r ∈ nsec3s, ∃ owner next typeBitMaps, Links r owner next typeBitMaps ∧
        p (owner, r) = true := by
  rw [List.any_eq_true]
  constructor
  · rintro ⟨⟨owner, r'⟩, hmem, hp⟩
    obtain ⟨r, hr, hsome⟩ := List.mem_filterMap.mp hmem
    split at hsome
    · rename_i hnsec
      obtain ⟨h, howner, heq⟩ := Option.map_eq_some_iff.mp hsome
      obtain ⟨rfl, rfl⟩ := Prod.mk.inj heq
      unfold isNsec at hnsec
      split at hnsec
      · rename_i nextDomain typeBitMaps hparsed
        exact ⟨r, hr, h, _, typeBitMaps, ⟨howner, nextDomain, hparsed, rfl⟩, hp⟩
      · cases hnsec
    · cases hsome
  · rintro ⟨r, hr, owner, next, typeBitMaps, ⟨howner, nextDomain, hparsed, -⟩, hp⟩
    refine ⟨(owner, r), List.mem_filterMap.mpr ⟨r, hr, ?_⟩, hp⟩
    rw [if_pos (by rw [isNsec, hparsed]), howner]
    rfl

theorem any_owner_iff :
    (nsec3Decoded nsec3s).any (fun (oh, _) => oh == hash) = true ↔
      ∃ r ∈ nsec3s, ∃ next typeBitMaps, Links r hash next typeBitMaps := by
  rw [any_nsec3Decoded_iff]
  constructor
  · rintro ⟨r, hr, owner, next, typeBitMaps, hlinks, hsame⟩
    rw [← eq_of_beq hsame]
    exact ⟨r, hr, next, typeBitMaps, hlinks⟩
  · rintro ⟨r, hr, next, typeBitMaps, hlinks⟩
    exact ⟨r, hr, hash, next, typeBitMaps, hlinks, beq_self_eq_true hash⟩

theorem nsec3AnyCovers_iff :
    nsec3AnyCovers (nsec3Decoded nsec3s) hash = true ↔
      ∃ r ∈ nsec3s, ∃ owner next typeBitMaps, Links r owner next typeBitMaps ∧
        inGap compare owner next hash = true := by
  rw [nsec3AnyCovers, any_nsec3Decoded_iff, ← nsec3HashInRange_eq_inGap]
  refine exists_congr fun r => and_congr_right fun _ => exists_congr fun owner =>
    exists_congr fun next => exists_congr fun typeBitMaps => and_congr_right fun hlinks => ?_
  obtain ⟨nextDomain, hparsed, rfl⟩ := hlinks.next
  simp only [hparsed]

theorem nsec3Nodata_iff :
    nsec3Nodata (nsec3Decoded nsec3s) hash qtype = true ↔
      ∃ r ∈ nsec3s, ∃ next typeBitMaps, Links r hash next typeBitMaps ∧
        typeBitmapContains typeBitMaps qtype = false ∧
        typeBitmapContains typeBitMaps 5 = false := by
  rw [nsec3Nodata, any_nsec3Decoded_iff]
  constructor
  · rintro ⟨r, hr, owner, next, typeBitMaps, hlinks, htest⟩
    obtain ⟨nextDomain, hparsed, -⟩ := hlinks.next
    simp only [hparsed, Bool.and_eq_true, Bool.not_eq_true', beq_iff_eq] at htest
    obtain ⟨⟨rfl, hqtype⟩, hcname⟩ := htest
    exact ⟨r, hr, next, typeBitMaps, hlinks, hqtype, hcname⟩
  · rintro ⟨r, hr, next, typeBitMaps, hlinks, hqtype, hcname⟩
    obtain ⟨nextDomain, hparsed, -⟩ := hlinks.next
    exact ⟨r, hr, hash, next, typeBitMaps, hlinks, by simp [hparsed, hqtype, hcname]⟩

theorem nsec3ProvenAt_iff {decoded : List (Bytes × ResourceRecord)} {i : Nat} :
    nsec3ProvenAt sha1 decoded labels i = true ↔
      decoded.any (fun (oh, _) =>
        oh == sha1 (nameToWire ([46].intercalate (labels.drop i)))) = true ∧
      nsec3AnyCovers decoded
        (sha1 (nameToWire ([46].intercalate (labels.drop (i - 1))))) = true ∧
      nsec3AnyCovers decoded
        (sha1 (nameToWire (wildcardOf ([46].intercalate (labels.drop i))))) = true := by
  simp only [nsec3ProvenAt, nsec3Hash_once, Bool.if_false_left, Bool.decide_eq_true, Bool.not_not,
    Bool.and_eq_true]

/-- The rounds of the loop are the ways to cut a name after one label, with
something left. -/
theorem exists_round_iff {p : List Bytes → List Bytes → Prop} :
    (∃ i ∈ List.range' 1 (labels.length - 1), p (labels.drop (i - 1)) (labels.drop i)) ↔
      ∃ label encloser, encloser ≠ [] ∧ label :: encloser <:+ labels ∧
        p (label :: encloser) encloser := by
  constructor
  · rintro ⟨i, hi, hp⟩
    obtain ⟨hpos, hlt⟩ := List.mem_range'_1.mp hi
    obtain ⟨j, rfl⟩ := Nat.exists_eq_add_of_le' hpos
    have hj : j < labels.length := by omega
    rw [Nat.add_sub_cancel, List.drop_eq_getElem_cons hj] at hp
    refine ⟨labels[j], labels.drop (j + 1), ?_, ?_, hp⟩
    · rw [ne_eq, List.drop_eq_nil_iff]
      omega
    · rw [← List.drop_eq_getElem_cons hj]
      exact List.drop_suffix j labels
  · rintro ⟨label, encloser, hne, ⟨before, rfl⟩, hp⟩
    have hpos := List.length_pos_iff.mpr hne
    refine ⟨before.length + 1, List.mem_range'_1.mpr ⟨by omega, ?_⟩, ?_⟩
    · simp only [List.length_append, List.length_cons]
      omega
    · rwa [Nat.add_sub_cancel, List.drop_left, List.drop_length_add_append, List.drop_one,
        List.tail_cons]

theorem nsec3Proven_iff {decoded : List (Bytes × ResourceRecord)} :
    nsec3Proven sha1 decoded qname = true ↔
      ∃ label encloser, encloser ≠ [] ∧ label :: encloser <:+ dotLabels qname ∧
        decoded.any (fun (oh, _) => oh == sha1 (nameToWire ([46].intercalate encloser))) = true ∧
        nsec3AnyCovers decoded
          (sha1 (nameToWire ([46].intercalate (label :: encloser)))) = true ∧
        nsec3AnyCovers decoded
          (sha1 (nameToWire (wildcardOf ([46].intercalate encloser)))) = true := by
  simp only [nsec3Proven, List.any_eq_true (l := List.range' _ _), nsec3ProvenAt_iff]
  exact exists_round_iff (p := fun next encloser =>
    decoded.any (fun (oh, _) => oh == sha1 (nameToWire ([46].intercalate encloser))) = true ∧
      nsec3AnyCovers decoded (sha1 (nameToWire ([46].intercalate next))) = true ∧
      nsec3AnyCovers decoded (sha1 (nameToWire (wildcardOf ([46].intercalate encloser)))) = true)

end Rules

/-! ### Zones and their rings -/

/-- The names of a zone with the types they have, and the ring of their hashes.
What lies between two names is a name, with or without types. -/
structure HashedZone (sha1 : Bytes → Bytes) where
  names : List (List Bytes)
  types : List Bytes → Finset UInt16
  hashes : List Bytes
  labelsOk : ∀ name ∈ names, LabelsOk name
  closed : Closed names
  ordered : hashes.Pairwise fun a b => compare a b = .lt
  hashed : ∀ hash, hash ∈ hashes ↔ ∃ name ∈ names, sha1 (wireName name) = hash

/-- The texts whose hashes decide a query. -/
def HashedFor (qname text : Bytes) : Prop :=
  text = qname ∨ ∃ labels, labels ≠ [] ∧ labels <:+ dotLabels qname ∧
    (text = [46].intercalate labels ∨ text = wildcardOf ([46].intercalate labels))

namespace HashedZone

variable {sha1 : Bytes → Bytes}

/-- A name other than the root is above the name. -/
def Encloses (zone : HashedZone sha1) (labels : List Bytes) : Prop :=
  ∃ name ∈ zone.names, name ≠ [] ∧ name <:+ labels

/-- The name is there, or the wildcard below its closest encloser is. -/
def Answers (zone : HashedZone sha1) (labels : List Bytes) : Prop :=
  labels ∈ zone.names ∨
    ∃ encloser, Closest zone.names labels encloser ∧ [42] :: encloser ∈ zone.names

/-- The name is there, without the type and without an alias. -/
def LacksType (zone : HashedZone sha1) (labels : List Bytes) (qtype : UInt16) : Prop :=
  labels ∈ zone.names ∧ qtype ∉ zone.types labels ∧ 5 ∉ zone.types labels

/-- The records are links of the ring, each with the types of its name. -/
def Supplies (zone : HashedZone sha1) (nsec3s : List ResourceRecord) : Prop :=
  ∀ r ∈ nsec3s, ∀ owner next typeBitMaps, Links r owner next typeBitMaps →
    (owner, next) ∈ successors zone.hashes ∧
      ∀ name ∈ zone.names, sha1 (wireName name) = owner →
        ∀ t, typeBitmapContains typeBitMaps t = true ↔ t ∈ zone.types name

/-- Every link of the ring is among the records. -/
def SuppliesAll (zone : HashedZone sha1) (nsec3s : List ResourceRecord) : Prop :=
  ∀ link ∈ successors zone.hashes, ∃ r ∈ nsec3s, ∃ typeBitMaps, Links r link.1 link.2 typeBitMaps

/-- No text that is hashed for the query has the hash of a name it is not. -/
def TellsApart (zone : HashedZone sha1) (qname : Bytes) : Prop :=
  ∀ text, HashedFor qname text → ∀ name ∈ zone.names,
    sha1 (nameToWire text) = sha1 (wireName name) → nameToWire text = wireName name

end HashedZone

section Texts

variable {qname text label : Bytes} {name labels : List Bytes}

/-- A text is hashed as the name it spells. -/
theorem nameToWire_eq_wireName_iff (hname : LabelsOk name) :
    nameToWire text = wireName name ↔ lowerAll (textLabels text) = name := by
  by_cases htext : LabelsOk (textLabels text)
  · rw [nameToWire_of_labelsOk htext]
    exact ⟨wireName_inj htext.lowerAll hname, congrArg wireName⟩
  · rw [nameToWire_of_not_labelsOk htext]
    constructor
    · intro hnil
      have hlen : name.length < (wireName name).length := length_lt_wireName
      rw [← hnil] at hlen
      exact absurd hlen (Nat.not_lt_zero _)
    · rintro rfl
      exact absurd (labelsOk_lowerAll_iff.mp hname) htext

theorem mem_dotLabels (h : label ∈ dotLabels text) : label ≠ [] ∧ 46 ∉ label := by
  obtain ⟨hsplit, hne⟩ := List.mem_filter.mp h
  exact ⟨by simpa using hne, not_mem_splitOn hsplit⟩

/-- What is joined from some of the last labels is cut into them again. -/
theorem textLabels_suffix (hne : labels ≠ []) (hends : labels <:+ dotLabels qname) :
    textLabels ([46].intercalate labels) = labels :=
  textLabels_intercalate hne fun _ hl => mem_dotLabels (hends.subset hl)

theorem textLabels_wildcardOf (hne : labels ≠ []) (hends : labels <:+ dotLabels qname) :
    textLabels (wildcardOf ([46].intercalate labels)) = [42] :: labels := by
  have hjoin : wildcardOf ([46].intercalate labels) = [46].intercalate ([42] :: labels) := by
    rw [List.intercalate_cons_of_ne_nil hne]
    rfl
  rw [hjoin]
  refine textLabels_intercalate (List.cons_ne_nil _ _) ?_
  exact List.forall_mem_cons.mpr ⟨by decide, fun _ hl => mem_dotLabels (hends.subset hl)⟩

end Texts

namespace HashedZone

variable {sha1 : Bytes → Bytes} {zone : HashedZone sha1} {nsec3s : List ResourceRecord}
  {qname text hash : Bytes} {qtype : UInt16} {labels : List Bytes}

/-- The hash of a text is in the ring if the name it spells is in the zone. -/
theorem hash_mem_iff (hapart : zone.TellsApart qname) (htext : HashedFor qname text) :
    sha1 (nameToWire text) ∈ zone.hashes ↔ lowerAll (textLabels text) ∈ zone.names := by
  rw [zone.hashed]
  constructor
  · rintro ⟨name, hname, hsame⟩
    have hwire := hapart text htext name hname hsame.symm
    rwa [(nameToWire_eq_wireName_iff (zone.labelsOk name hname)).mp hwire]
  · intro hmem
    refine ⟨_, hmem, ?_⟩
    rw [(nameToWire_eq_wireName_iff (zone.labelsOk _ hmem)).mpr rfl]

theorem suffix_hash_mem_iff (hapart : zone.TellsApart qname) (hne : labels ≠ [])
    (hends : labels <:+ dotLabels qname) :
    sha1 (nameToWire ([46].intercalate labels)) ∈ zone.hashes ↔
      lowerAll labels ∈ zone.names := by
  rw [hash_mem_iff hapart (.inr ⟨labels, hne, hends, .inl rfl⟩), textLabels_suffix hne hends]

theorem wildcard_hash_mem_iff (hapart : zone.TellsApart qname) (hne : labels ≠ [])
    (hends : labels <:+ dotLabels qname) :
    sha1 (nameToWire (wildcardOf ([46].intercalate labels))) ∈ zone.hashes ↔
      [42] :: lowerAll labels ∈ zone.names := by
  rw [hash_mem_iff hapart (.inr ⟨labels, hne, hends, .inr rfl⟩), textLabels_wildcardOf hne hends]
  rfl

/-! #### What records of the ring show -/

theorem mem_of_owner (hsupplied : zone.Supplies nsec3s)
    (howner : (nsec3Decoded nsec3s).any (fun (oh, _) => oh == hash) = true) :
    hash ∈ zone.hashes := by
  obtain ⟨r, hr, next, typeBitMaps, hlinks⟩ := any_owner_iff.mp howner
  have hlink := (hsupplied r hr _ _ _ hlinks).1
  rw [← map_fst_successors zone.hashes]
  exact List.mem_map_of_mem hlink

theorem not_mem_of_covers (hsupplied : zone.Supplies nsec3s)
    (hcovers : nsec3AnyCovers (nsec3Decoded nsec3s) hash = true) : hash ∉ zone.hashes := by
  obtain ⟨r, hr, owner, next, typeBitMaps, hlinks, hgap⟩ := nsec3AnyCovers_iff.mp hcovers
  intro hmem
  refine not_mem_of_inGap zone.ordered (hsupplied r hr _ _ _ hlinks).1 hgap hash hmem ?_
  exact Std.LawfulEqOrd.compare_eq_iff_eq.mpr rfl

/-! #### What the whole ring shows -/

theorem exists_links (hall : zone.SuppliesAll nsec3s) (hmem : hash ∈ zone.hashes) :
    ∃ r ∈ nsec3s, ∃ next typeBitMaps, Links r hash next typeBitMaps := by
  rw [← map_fst_successors zone.hashes] at hmem
  obtain ⟨⟨owner, next⟩, hlink, rfl⟩ := List.mem_map.mp hmem
  obtain ⟨r, hr, typeBitMaps, hlinks⟩ := hall _ hlink
  exact ⟨r, hr, next, typeBitMaps, hlinks⟩

theorem covers_of_not_mem (hall : zone.SuppliesAll nsec3s) (hnonempty : zone.hashes ≠ [])
    (hmissing : hash ∉ zone.hashes) : nsec3AnyCovers (nsec3Decoded nsec3s) hash = true := by
  have hne : ∀ other ∈ zone.hashes, compare other hash ≠ .eq := by
    intro other hother heq
    exact hmissing (Std.LawfulEqOrd.compare_eq_iff_eq.mp heq ▸ hother)
  obtain ⟨link, hlink, hgap⟩ := (exists_inGap_iff hnonempty zone.ordered).mpr hne
  obtain ⟨r, hr, typeBitMaps, hlinks⟩ := hall link hlink
  exact nsec3AnyCovers_iff.mpr ⟨r, hr, link.1, link.2, typeBitMaps, hlinks, hgap⟩

/-! #### The two proofs -/

/-- A proof of absence finds the closest encloser, and leaves no wildcard. -/
theorem denies_of_proven (hsupplied : zone.Supplies nsec3s) (hapart : zone.TellsApart qname)
    (hproven : nsec3Proven sha1 (nsec3Decoded nsec3s) qname = true) :
    zone.Encloses (lowerAll (dotLabels qname)) ∧ ¬ zone.Answers (lowerAll (dotLabels qname)) := by
  obtain ⟨label, encloser, hne, hnext, howner, hcovered, hwildcard⟩ := nsec3Proven_iff.mp hproven
  have hends : encloser <:+ dotLabels qname := (List.suffix_cons label encloser).trans hnext
  have hencloser := (suffix_hash_mem_iff hapart hne hends).mp (mem_of_owner hsupplied howner)
  have hmissing := (suffix_hash_mem_iff hapart (List.cons_ne_nil label encloser) hnext).not.mp
    (not_mem_of_covers hsupplied hcovered)
  have hnowildcard := (wildcard_hash_mem_iff hapart hne hends).not.mp
    (not_mem_of_covers hsupplied hwildcard)
  obtain ⟨hclosest, habsent⟩ := (closest_iff zone.closed).mpr
    ⟨hencloser, label.map asciiLower, hnext.map _, hmissing⟩
  constructor
  · exact ⟨lowerAll encloser, hencloser, by simpa [lowerAll] using hne, hclosest.2.1⟩
  · rintro (hmem | ⟨other, hother, hmem⟩)
    · exact habsent hmem
    · rw [hother.unique hclosest] at hmem
      exact hnowildcard hmem

/-- The whole ring proves every absence below a name other than the root. -/
theorem proven_of_denies (hall : zone.SuppliesAll nsec3s) (hapart : zone.TellsApart qname)
    (hencloses : zone.Encloses (lowerAll (dotLabels qname)))
    (hdenied : ¬ zone.Answers (lowerAll (dotLabels qname))) :
    nsec3Proven sha1 (nsec3Decoded nsec3s) qname = true := by
  obtain ⟨other, hother, hnotroot, hsuffix⟩ := hencloses
  obtain ⟨hmissing, hnowildcard⟩ := not_or.mp hdenied
  obtain ⟨closest, hclosest, hbelow⟩ := exists_closest hother hsuffix
  obtain ⟨hmem, lower, hlower, hnone⟩ := (closest_iff zone.closed).mp ⟨hclosest, hmissing⟩
  -- The closest encloser in lower case is some of the last labels of the query.
  obtain ⟨next, hnext, heq⟩ := List.suffix_map_iff.mp hlower
  obtain ⟨label, encloser, rfl, rfl, rfl⟩ := List.map_eq_cons_iff.mp heq.symm
  have hne : encloser ≠ [] := by
    rintro rfl
    exact hnotroot (List.suffix_nil.mp hbelow)
  have hends : encloser <:+ dotLabels qname := (List.suffix_cons label encloser).trans hnext
  have hhash := (suffix_hash_mem_iff hapart hne hends).mpr hmem
  have hring : zone.hashes ≠ [] := List.ne_nil_of_mem hhash
  refine nsec3Proven_iff.mpr ⟨label, encloser, hne, hnext, ?_, ?_, ?_⟩
  · exact any_owner_iff.mpr (exists_links hall hhash)
  · exact covers_of_not_mem hall hring
      ((suffix_hash_mem_iff hapart (List.cons_ne_nil label encloser) hnext).not.mpr hnone)
  · exact covers_of_not_mem hall hring ((wildcard_hash_mem_iff hapart hne hends).not.mpr
      fun hwildcard => hnowildcard ⟨_, hclosest, hwildcard⟩)

/-- The record with the hash of the query has the types of its name. -/
theorem types_of_links (hsupplied : zone.Supplies nsec3s) {r : ResourceRecord}
    {next typeBitMaps : Bytes} (hr : r ∈ nsec3s)
    (hlinks : Links r (sha1 (nameToWire qname)) next typeBitMaps)
    (hmem : lowerAll (textLabels qname) ∈ zone.names) (t : UInt16) :
    typeBitmapContains typeBitMaps t = true ↔ t ∈ zone.types (lowerAll (textLabels qname)) := by
  have hwire := (nameToWire_eq_wireName_iff (zone.labelsOk _ hmem)).mpr rfl
  exact (hsupplied r hr _ _ _ hlinks).2 _ hmem (congrArg sha1 hwire.symm) t

theorem lacksType_of_nodata (hsupplied : zone.Supplies nsec3s) (hapart : zone.TellsApart qname)
    (hnodata : nsec3Nodata (nsec3Decoded nsec3s) (sha1 (nameToWire qname)) qtype = true) :
    zone.LacksType (lowerAll (textLabels qname)) qtype := by
  obtain ⟨r, hr, next, typeBitMaps, hlinks, hqtype, hcname⟩ := nsec3Nodata_iff.mp hnodata
  have howner := any_owner_iff.mpr ⟨r, hr, next, typeBitMaps, hlinks⟩
  have hmem := (hash_mem_iff hapart (.inl rfl)).mp (mem_of_owner hsupplied howner)
  have htypes := types_of_links hsupplied hr hlinks hmem
  refine ⟨hmem, (htypes qtype).not.mp ?_, (htypes 5).not.mp ?_⟩
  · rw [hqtype]
    decide
  · rw [hcname]
    decide

theorem nodata_of_lacksType (hsupplied : zone.Supplies nsec3s) (hall : zone.SuppliesAll nsec3s)
    (hapart : zone.TellsApart qname) (hlacks : zone.LacksType (lowerAll (textLabels qname)) qtype) :
    nsec3Nodata (nsec3Decoded nsec3s) (sha1 (nameToWire qname)) qtype = true := by
  obtain ⟨hmem, hqtype, hcname⟩ := hlacks
  obtain ⟨r, hr, next, typeBitMaps, hlinks⟩ :=
    exists_links hall ((hash_mem_iff hapart (.inl rfl)).mpr hmem)
  have htypes := types_of_links hsupplied hr hlinks hmem
  refine nsec3Nodata_iff.mpr ⟨r, hr, next, typeBitMaps, hlinks, ?_, ?_⟩
  · exact Bool.eq_false_of_not_eq_true ((htypes qtype).not.mpr hqtype)
  · exact Bool.eq_false_of_not_eq_true ((htypes 5).not.mpr hcname)

end HashedZone

/-! ### The verdict -/

section Verdicts

variable {sha1 : Bytes → Bytes} {nsec3s : List ResourceRecord} {qname : Bytes} {qtype : UInt16}

theorem nsec3Verdict_nxdomain (hnsec : ∀ r ∈ nsec3s, isNsec r = true) :
    nsec3Verdict sha1 nsec3s qname qtype true = .secure ↔
      nsec3Proven sha1 (nsec3Decoded nsec3s) qname = true := by
  cases nsec3s with
  | nil =>
      rw [nsec3Proven_iff]
      constructor
      · intro h
        cases h
      · rintro ⟨_, _, _, _, hnone, _⟩
        cases hnone
  | cons first rest =>
      rw [nsec3Verdict, if_pos (hnsec first List.mem_cons_self), nsec3Hash_once]
      simp

theorem nsec3Verdict_nodata (hnsec : ∀ r ∈ nsec3s, isNsec r = true) :
    nsec3Verdict sha1 nsec3s qname qtype false = .secure ↔
      nsec3Nodata (nsec3Decoded nsec3s) (sha1 (nameToWire qname)) qtype = true := by
  cases nsec3s with
  | nil =>
      constructor
      · intro h
        cases h
      · intro h
        cases h
  | cons first rest =>
      rw [nsec3Verdict, if_pos (hnsec first List.mem_cons_self), nsec3Hash_once]
      simp

end Verdicts

/-- **Hashed records deny what the zone denies.** With records of its ring, an
NXDOMAIN verdict means that neither the name nor the wildcard below its closest
encloser is there, and a NODATA verdict that the name is there without the type.
With the whole ring both are reached whenever they are true, except where no name
but the root is above the one asked for. -/
theorem nsec3_exact (sha1 : Bytes → Bytes) (zone : HashedZone sha1)
    (authorities : List ResourceRecord) (qname : Bytes) (qtype : UInt16)
    (hsupplied : zone.Supplies (authorities.filter isNsec)) (hapart : zone.TellsApart qname) :
    (nsec3Verdict sha1 (authorities.filter isNsec) qname qtype true = .secure →
      zone.Encloses (lowerAll (dotLabels qname)) ∧ ¬ zone.Answers (lowerAll (dotLabels qname))) ∧
    (nsec3Verdict sha1 (authorities.filter isNsec) qname qtype false = .secure →
      zone.LacksType (lowerAll (textLabels qname)) qtype) ∧
    (zone.SuppliesAll (authorities.filter isNsec) →
      (zone.Encloses (lowerAll (dotLabels qname)) →
        ¬ zone.Answers (lowerAll (dotLabels qname)) →
        nsec3Verdict sha1 (authorities.filter isNsec) qname qtype true = .secure) ∧
      (zone.LacksType (lowerAll (textLabels qname)) qtype →
        nsec3Verdict sha1 (authorities.filter isNsec) qname qtype false = .secure)) := by
  have hnsec : ∀ r ∈ authorities.filter isNsec, isNsec r = true :=
    fun r hr => (List.mem_filter.mp hr).2
  rw [nsec3Verdict_nxdomain hnsec, nsec3Verdict_nodata hnsec]
  refine ⟨HashedZone.denies_of_proven hsupplied hapart,
    HashedZone.lacksType_of_nodata hsupplied hapart, fun hall => ⟨?_, ?_⟩⟩
  · exact HashedZone.proven_of_denies hall hapart
  · exact HashedZone.nodata_of_lacksType hsupplied hall hapart

/-! ### A ring of two names -/

/-- SHA-1 on the names hashed here. -/
def sampleSha1 (input : Bytes) : Bytes :=
  if input = sampleZoneName then
    [47, 133, 33, 68, 172, 192, 28, 181, 147, 105, 140, 178, 186, 120, 249, 114, 141, 8, 103, 159]
  else if input = [1, 98, 4, 116, 101, 115, 116, 0] then
    [34, 10, 136, 160, 110, 121, 181, 55, 122, 132, 49, 187, 9, 242, 244, 207, 137, 169, 29, 0]
  else if input = [1, 97, 4, 116, 101, 115, 116, 0] then
    [116, 57, 21, 26, 14, 28, 228, 50, 185, 184, 154, 232, 2, 168, 129, 81, 28, 41, 211, 105]
  else if input = wildcardOwner then
    [207, 146, 156, 41, 214, 66, 43, 175, 15, 251, 65, 161, 145, 74, 3, 78, 42, 14, 177, 227]
  else if input = [1, 42, 1, 97, 4, 116, 101, 115, 116, 0] then
    [166, 165, 177, 239, 179, 187, 242, 14, 64, 139, 96, 94, 156, 160, 93, 149, 15, 143, 104, 214]
  else []

/-- The hash of `test` in base 32. -/
def zoneHashLabel : Bytes :=
  [53, 117, 50, 105, 50, 104, 53, 99, 111, 48, 101, 98, 98, 52, 114, 57, 104, 105, 112, 98, 107,
    117, 55, 112, 101, 97, 54, 103, 103, 112, 115, 118]

/-- The hash of `b.test` in base 32. -/
def hostHashLabel : Bytes :=
  [52, 56, 53, 56, 104, 56, 51, 101, 102, 54, 113, 106, 101, 117, 107, 52, 54, 54, 116, 103, 106,
    115, 110, 107, 112, 117, 52, 113, 105, 55, 56, 48]

/-- `test` with its nameservers, and `b.test` with an address. -/
def hashedZone : HashedZone sampleSha1 where
  names := [[sampleZone], [[98], sampleZone]]
  types name := if name = [sampleZone] then {2} else {1}
  hashes := [sampleSha1 (wireName [[98], sampleZone]), sampleSha1 (wireName [sampleZone])]
  labelsOk := by simp [LabelsOk, sampleZone]
  closed := by
    intro upper hupper lower hlower between habove hbelow
    have hnonempty : between ≠ [] := by
      rintro rfl
      rw [List.suffix_nil.mp habove] at hupper
      revert hupper
      decide
    have hends : between <:+ [[98], sampleZone] := by
      rcases List.mem_pair.mp hlower with rfl | rfl
      · exact hbelow.trans (List.suffix_cons _ _)
      · exact hbelow
    simpa [List.suffix_cons_iff, hnonempty, or_comm] using hends
  ordered := by decide
  hashed hash := by
    simp [or_comm, eq_comm]

/-- A record of a hashed owner, with types. -/
def hashedRecord (owner next : Bytes) (types : Finset UInt16) : ResourceRecord :=
  sampleRecord (32 :: owner ++ sampleZoneName) 47
    (.nsec (32 :: next ++ sampleZoneName) (encodeTypeBitmap types))

/-- The two links of the ring. -/
def hashedRecords : List ResourceRecord :=
  [hashedRecord zoneHashLabel hostHashLabel {2}, hashedRecord hostHashLabel zoneHashLabel {1}]

theorem Links.unique {r : ResourceRecord} {owner next typeBitMaps owner' next' typeBitMaps' : Bytes}
    (h : Links r owner next typeBitMaps) (h' : Links r owner' next' typeBitMaps') :
    owner = owner' ∧ next = next' ∧ typeBitMaps = typeBitMaps' := by
  obtain ⟨nextDomain, hparsed, rfl⟩ := h.next
  obtain ⟨nextDomain', hparsed', rfl⟩ := h'.next
  rw [hparsed] at hparsed'
  cases hparsed'
  exact ⟨Option.some.inj (h.owner.symm.trans h'.owner), rfl, rfl⟩

theorem links_zone :
    Links (hashedRecord zoneHashLabel hostHashLabel {2}) (sampleSha1 (wireName [sampleZone]))
      (sampleSha1 (wireName [[98], sampleZone])) (encodeTypeBitmap {2}) :=
  ⟨by decide +kernel, _, rfl, by decide +kernel⟩

theorem links_host :
    Links (hashedRecord hostHashLabel zoneHashLabel {1})
      (sampleSha1 (wireName [[98], sampleZone])) (sampleSha1 (wireName [sampleZone]))
      (encodeTypeBitmap {1}) :=
  ⟨by decide +kernel, _, rfl, by decide +kernel⟩

theorem hashedZone_supplies : hashedZone.Supplies hashedRecords := by
  intro r hr owner next typeBitMaps hlinks
  rcases List.mem_pair.mp hr with rfl | rfl
  · obtain ⟨rfl, rfl, rfl⟩ := hlinks.unique links_zone
    refine ⟨by decide +kernel, fun name hname hhash t => ?_⟩
    rcases List.mem_pair.mp hname with rfl | rfl
    · rw [typeBitmapContains_encode, decide_eq_true_iff]
      rfl
    · exact absurd hhash (by decide)
  · obtain ⟨rfl, rfl, rfl⟩ := hlinks.unique links_host
    refine ⟨by decide +kernel, fun name hname hhash t => ?_⟩
    rcases List.mem_pair.mp hname with rfl | rfl
    · exact absurd hhash (by decide)
    · rw [typeBitmapContains_encode, decide_eq_true_iff]
      rfl

theorem hashedZone_suppliesAll : hashedZone.SuppliesAll hashedRecords := by
  intro link hlink
  have hpair : successors hashedZone.hashes =
      [(sampleSha1 (wireName [[98], sampleZone]), sampleSha1 (wireName [sampleZone])),
        (sampleSha1 (wireName [sampleZone]), sampleSha1 (wireName [[98], sampleZone]))] := rfl
  rw [hpair] at hlink
  rcases List.mem_pair.mp hlink with rfl | rfl
  · exact ⟨_, List.mem_cons_of_mem _ List.mem_cons_self, _, links_host⟩
  · exact ⟨_, List.mem_cons_self, _, links_zone⟩

theorem hashedZone_tellsApart : hashedZone.TellsApart deniedName := by
  have htexts : ∀ text ∈ [deniedName, wildcardOf deniedName, sampleZone, wildcardOf sampleZone],
      ∀ name ∈ hashedZone.names, sampleSha1 (nameToWire text) = sampleSha1 (wireName name) →
        nameToWire text = wireName name := by
    decide +kernel
  intro text htext
  refine htexts text ?_
  rcases htext with rfl | ⟨labels, hne, hends, hcase⟩
  · exact List.mem_cons_self
  · have hlabels : labels = [[97], sampleZone] ∨ labels = [sampleZone] := by
      have hdot : dotLabels deniedName = [[97], sampleZone] := by decide +kernel
      rw [hdot] at hends
      simpa [List.suffix_cons_iff, hne] using hends
    rcases hlabels with rfl | rfl <;> rcases hcase with rfl | rfl <;> decide

/-- `a.test` is denied by the ring of `test` and `b.test`. -/
theorem nsec3_exact_deniedName :
    hashedZone.Supplies (hashedRecords.filter isNsec) ∧ hashedZone.TellsApart deniedName ∧
      hashedZone.SuppliesAll (hashedRecords.filter isNsec) ∧
      nsec3Verdict sampleSha1 (hashedRecords.filter isNsec) deniedName 1 true = .secure ∧
      ¬ hashedZone.Answers (lowerAll (dotLabels deniedName)) := by
  have hdenied :
      nsec3Verdict sampleSha1 (hashedRecords.filter isNsec) deniedName 1 true = .secure := by
    decide +kernel
  exact ⟨hashedZone_supplies, hashedZone_tellsApart, hashedZone_suppliesAll, hdenied,
    ((nsec3_exact sampleSha1 hashedZone hashedRecords deniedName 1 hashedZone_supplies
      hashedZone_tellsApart).1 hdenied).2⟩

end FastDns.Dnssec
