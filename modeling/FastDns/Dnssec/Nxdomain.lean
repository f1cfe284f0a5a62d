/-
What an NSEC proof of a name's absence says about the zone.

A zone is its owner names in canonical order, and its NSEC records link each of
them to the next one. The canonical order is the order of reversed lists of
labels (`canonicalDnsNameOrder_eq`), so a name in a gap of the chain is not an
owner. `nxdomain_sound` draws from it what a `Secure` verdict of
`validate_denial` is worth: the name is no owner, and neither is the wildcard
below the closest encloser that was found, unless its own record was given. The
verdict says nothing about wildcards where no encloser was found.
-/

import FastDns.Dnssec.Denial
import FastDns.Lib.Gaps

namespace FastDns.Dnssec

open FastDns.Lib FastDns.Dns FastDns.Resolver

/-! ### The canonical order -/

/-- The labels of a name in lower case, the last one first. -/
def nameKey (name : Bytes) : List Bytes :=
  (dotLabels name).reverse.map fun label => label.map asciiLower

theorem commonLabelsOrder_eq (a b : List Bytes) :
    (commonLabelsOrder a b).then (compare a.length b.length) =
      compare (a.map fun label => label.map asciiLower)
        (b.map fun label => label.map asciiLower) := by
  induction a generalizing b with
  | nil =>
      cases b with
      | nil => rfl
      | cons lb b => exact Nat.compare_eq_lt.mpr (Nat.succ_pos _)
  | cons la a ih =>
      cases b with
      | nil => exact Nat.compare_eq_gt.mpr (Nat.succ_pos _)
      | cons lb b =>
          have hlength : compare (la :: a).length (lb :: b).length = compare a.length b.length := by
            rw [List.length_cons, List.length_cons, Nat.compare_eq_ite_lt, Nat.compare_eq_ite_lt]
            simp only [Nat.add_lt_add_iff_right]
          rw [hlength, commonLabelsOrder, Ordering.then_assoc, ih, List.map_cons, List.map_cons,
            List.compare_cons_cons, labelOrder]

/-- The canonical order compares lists of labels. -/
theorem canonicalDnsNameOrder_eq (a b : Bytes) :
    canonicalDnsNameOrder a b = compareOn nameKey a b := by
  have hlength : ∀ labels : List Bytes, labels.length = labels.reverse.length :=
    fun labels => List.length_reverse.symm
  rw [canonicalDnsNameOrder, hlength (dotLabels a), hlength (dotLabels b)]
  exact commonLabelsOrder_eq _ _

instance : Std.TransCmp canonicalDnsNameOrder := by
  rw [funext₂ canonicalDnsNameOrder_eq]
  infer_instance

/-- Names that the order does not tell apart have the same labels. -/
theorem canonicalDnsNameOrder_eq_eq {a b : Bytes} :
    canonicalDnsNameOrder a b = .eq ↔ nameKey a = nameKey b := by
  rw [canonicalDnsNameOrder_eq]
  exact Std.LawfulEqOrd.compare_eq_iff_eq

/-! ### Zones -/

/-- The owner names of a zone, in canonical order. -/
structure Zone where
  owners : List Bytes
  ordered : (owners.map labelsToString).Pairwise fun a b => canonicalDnsNameOrder a b = .lt

/-- The name has the labels of an owner. -/
def Zone.Owns (zone : Zone) (name : Bytes) : Prop :=
  ∃ owner ∈ zone.owners, nameKey (labelsToString owner) = nameKey name

/-- The NSEC records among the given ones are links of the zone's chain. -/
def Zone.Supplies (zone : Zone) (authorities : List ResourceRecord) : Prop :=
  ∀ r ∈ authorities, ∀ nextDomain typeBitMaps, r.parsed = some (.nsec nextDomain typeBitMaps) →
    (r.name, nextDomain) ∈ successors zone.owners

/-- The wildcard below a name: `format!("*.{}", ..)` -/
def wildcardOf (name : Bytes) : Bytes := 42 :: 46 :: name

section Denied

variable {zone : Zone} {authorities : List ResourceRecord}

/-- A name in the gap of a record is not an owner. -/
theorem Zone.not_owns_of_covers (hsupplied : zone.Supplies authorities) {r : ResourceRecord}
    (hr : r ∈ authorities) {name : Bytes} (hcovers : nsecCovers name r = true) :
    ¬ zone.Owns name := by
  rintro ⟨owner, howner, hsame⟩
  unfold nsecCovers at hcovers
  split at hcovers
  · rename_i nextDomain typeBitMaps hparsed
    have hlink : (labelsToString r.name, labelsToString nextDomain) ∈
        successors (zone.owners.map labelsToString) := by
      rw [successors_map]
      exact List.mem_map_of_mem (hsupplied r hr nextDomain typeBitMaps hparsed)
    have hgap : inGap canonicalDnsNameOrder (labelsToString r.name) (labelsToString nextDomain)
        name = true := hcovers
    exact not_mem_of_inGap zone.ordered hlink hgap _ (List.mem_map_of_mem howner)
      (canonicalDnsNameOrder_eq_eq.mpr hsame)
  · cases hcovers

/-- The verdict on verified records. -/
theorem Zone.sound_of_nsecVerdict (hsupplied : zone.Supplies authorities) {qname : Bytes}
    {qtype : UInt16}
    (hsecure : nsecVerdict (authorities.filter isNsec) qname qtype true = .secure) :
    ¬ zone.Owns qname ∧ ∀ encloser,
      closestEncloser qname (authorities.filter isNsec) = some encloser →
      (∀ r ∈ authorities.filter isNsec,
        eqIgnoreCase (labelsToString r.name) (wildcardOf encloser) = false) →
      ¬ zone.Owns (wildcardOf encloser) := by
  have hverdict : (authorities.filter isNsec).any (nsecCovers qname) = true ∧
      wildcardDenied (authorities.filter isNsec) qname = true := by
    rw [nsecVerdict, if_pos rfl] at hsecure
    split at hsecure
    · rename_i hboth
      exact Bool.and_eq_true_iff.mp hboth
    · cases hsecure
  obtain ⟨r, hr, hcovers⟩ := List.any_eq_true.mp hverdict.1
  refine ⟨not_owns_of_covers hsupplied (List.mem_of_mem_filter hr) hcovers, ?_⟩
  intro encloser hencloser hnotgiven
  have hdenied := hverdict.2
  rw [wildcardDenied, hencloser] at hdenied
  obtain ⟨r, hr, hcase⟩ := List.any_eq_true.mp hdenied
  rw [Bool.or_eq_true, Bool.and_eq_true] at hcase
  rcases hcase with hcovers | ⟨_, hmatches⟩
  · exact not_owns_of_covers hsupplied (List.mem_of_mem_filter hr) hcovers
  · rw [wildcardOf] at hnotgiven
    rw [hnotgiven r hr] at hmatches
    cases hmatches

end Denied

/-- A verdict of `Secure` was reached on verified records. -/
theorem nsecVerdict_of_validateDenial {authorities allRrsigs : List ResourceRecord} {qname : Bytes}
    {qtype : UInt16} {isNxdomain : Bool} {world : World} {s : ValidationSt}
    (h : (validateDenial authorities allRrsigs qname qtype isNxdomain).result world s =
      .ok .secure) :
    (verifyAuthorityRrsigs authorities allRrsigs 47).result world s = .ok true ∧
      nsecVerdict (authorities.filter isNsec) qname qtype isNxdomain = .secure := by
  obtain ⟨s', hrun⟩ := Run.result_eq_ok.mp h
  unfold validateDenial at hrun
  split at hrun
  · obtain ⟨verified, s₁, hverified, hstatus⟩ := Run.bind_eq_ok.mp hrun
    cases verified with
    | true =>
        refine ⟨Run.result_eq_ok.mpr ⟨s₁, hverified⟩, ?_⟩
        cases hverdict : nsecVerdict (authorities.filter isNsec) qname qtype isNxdomain with
        | secure => rfl
        | insecure => rw [hverdict] at hstatus; cases hstatus
        | bogus => rw [hverdict] at hstatus; cases hstatus
        | indeterminate => rw [hverdict] at hstatus; cases hstatus
    | false => cases hstatus
  · cases hrun

/-- **What a denied name is not**: an owner of the zone. Nor is the wildcard below
the closest encloser among the owners of the given records, unless its own record
is one of them. -/
theorem nxdomain_sound (zone : Zone) (authorities allRrsigs : List ResourceRecord) (qname : Bytes)
    (qtype : UInt16) (world : World) (s : ValidationSt) (hsupplied : zone.Supplies authorities)
    (hsecure : (validateDenial authorities allRrsigs qname qtype true).result world s =
      .ok .secure) :
    ¬ zone.Owns qname ∧ ∀ encloser,
      closestEncloser qname (authorities.filter isNsec) = some encloser →
      (∀ r ∈ authorities.filter isNsec,
        eqIgnoreCase (labelsToString r.name) (wildcardOf encloser) = false) →
      ¬ zone.Owns (wildcardOf encloser) :=
  Zone.sound_of_nsecVerdict hsupplied (nsecVerdict_of_validateDenial hsecure).2

/-! ### A zone with a wildcard -/

/-- `*.test` -/
def wildcardOwner : Bytes := [1, 42, 4, 116, 101, 115, 116, 0]

/-- The owners `test` and `*.test`. -/
def wildcardZone : Zone where
  owners := [sampleZoneName, wildcardOwner]
  ordered := by decide +kernel

/-- The last link of the chain, from `*.test` back to `test`. -/
def wildcardNsec : ResourceRecord :=
  sampleRecord wildcardOwner 47 (.nsec sampleZoneName [0, 6, 64, 0, 0, 0, 0, 3])

def wildcardKey : Bytes :=
  [45, 223, 52, 239, 30, 96, 134, 194, 179, 121, 115, 80, 6, 51, 198, 211, 84, 140, 19, 245, 157,
    186, 13, 242, 178, 199, 217, 251, 123, 141, 218, 61]

def wildcardSigned : Bytes :=
  [0, 47, 15, 1, 0, 0, 14, 16, 101, 236, 135, 128, 100, 187, 90, 128, 246, 142, 1, 42, 4, 116, 101,
    115, 116, 0, 1, 42, 4, 116, 101, 115, 116, 0, 0, 47, 0, 1, 0, 0, 14, 16, 0, 14, 4, 116, 101, 115,
    116, 0, 0, 6, 64, 0, 0, 0, 0, 3]

/-- The Ed25519 signature of `wildcardSigned` under `wildcardKey`. -/
def wildcardSignature : Bytes :=
  [123, 16, 191, 36, 248, 138, 159, 157, 193, 245, 185, 140, 92, 234, 253, 208, 236, 114, 113, 20,
    176, 230, 253, 132, 21, 79, 243, 162, 34, 131, 180, 5, 168, 129, 153, 119, 234, 123, 125, 16, 40,
    254, 153, 166, 143, 217, 225, 87, 210, 77, 60, 150, 167, 173, 65, 66, 79, 231, 5, 0, 198, 100,
    148, 14]

def wildcardRrsig : ResourceRecord :=
  sampleSignature wildcardOwner 47 1 63118 wildcardOwner wildcardSignature

/-- A world that knows this one signature. -/
def wildcardWorld : World :=
  .unreachable { sampleCrypto with
    ed25519 := fun publicKey data signature =>
      (publicKey, data, signature) = (wildcardKey, wildcardSigned, wildcardSignature) } 1700000000

/-- The key of the signer is in the cache, with its parsed form. -/
def keyedSt : ValidationSt :=
  { ValidationSt.initial with
    cache := { DnsCache.new with
      entries := DnsCache.new.entries.put (wildcardOwner, 48, 1)
        [⟨ed25519Record wildcardOwner wildcardKey, nanos 3600⟩] } }

/-- `a.test` -/
def deniedName : Bytes := [97, 46, 116, 101, 115, 116]

theorem wildcardZone_supplies : wildcardZone.Supplies [wildcardNsec] := by
  intro r hr nextDomain typeBitMaps hparsed
  obtain rfl := List.mem_singleton.mp hr
  cases hparsed
  decide

theorem deniedName_secure :
    (validateDenial [wildcardNsec] [wildcardRrsig] deniedName 1 true).result wildcardWorld keyedSt =
      .ok .secure := by
  decide +kernel

theorem nxdomain_sound_deniedName :
    wildcardZone.Supplies [wildcardNsec] ∧
      (validateDenial [wildcardNsec] [wildcardRrsig] deniedName 1 true).result wildcardWorld
        keyedSt = .ok .secure ∧ ¬ wildcardZone.Owns deniedName :=
  ⟨wildcardZone_supplies, deniedName_secure, (nxdomain_sound wildcardZone [wildcardNsec]
    [wildcardRrsig] deniedName 1 wildcardWorld keyedSt wildcardZone_supplies deniedName_secure).1⟩

/-- `a.test` is denied although `*.test` could have answered the query: the only
record given is that of the wildcard, and it covers `a.test`. -/
theorem denied_below_wildcard :
    wildcardZone.Supplies [wildcardNsec] ∧
      (validateDenial [wildcardNsec] [wildcardRrsig] deniedName 1 true).result wildcardWorld
        keyedSt = .ok .secure ∧
      (nameKey deniedName).dropLast = nameKey sampleZone ∧ wildcardZone.Owns sampleZone ∧
      wildcardZone.Owns (wildcardOf sampleZone) :=
  ⟨wildcardZone_supplies, deniedName_secure, by decide +kernel,
    ⟨sampleZoneName, List.mem_cons_self, by decide +kernel⟩,
    ⟨wildcardOwner, List.mem_cons_of_mem _ List.mem_cons_self, by decide +kernel⟩⟩

end FastDns.Dnssec
