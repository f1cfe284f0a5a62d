/-
The canonical form of RDATA (`record_rdata_canonical`, `src/dnssec/mod.rs`).

The program writes parsed RDATA back twice: `decompressed_rdata` for the record
it stores, `record_rdata_canonical` for the bytes a signature covers. Read
side by side, constructor by constructor (`canonical_faithful_iff`), the second
is the first with the embedded names in lower case, except that it writes an SRV
record as nothing and takes every name through its text.

* **`txt_preserved_iff`.** The character-strings of a TXT record are kept exactly
  if all of them are UTF-8.
-/

import FastDns.Dns.RoundTrip
import FastDns.Dnssec.CanonicalName
import Mathlib.Data.List.Flatten

namespace FastDns.Dns

open FastDns.Lib

/-! ### The names inside an RDATA -/

/-- The names inside a parsed RDATA. -/
def RData.embeddedNames : RData → List Bytes
  | .cname name | .ns name | .ptr name => [name]
  | .mx _ exchange => [exchange]
  | .soa s => [s.mname, s.rname]
  | .srv _ _ _ target => [target]
  | .rrsig r => [r.signerName]
  | .nsec nextDomain _ => [nextDomain]
  | .a _ | .aaaa _ | .txt _ | .dnskey _ | .ds _ | .nsec3 _ | .unknown _ => []

/-- The parsed RDATA with other names in it. -/
def RData.mapNames (f : Bytes → Bytes) : RData → RData
  | .cname name => .cname (f name)
  | .ns name => .ns (f name)
  | .ptr name => .ptr (f name)
  | .mx preference exchange => .mx preference (f exchange)
  | .soa s => .soa { s with mname := f s.mname, rname := f s.rname }
  | .srv priority weight port target => .srv priority weight port (f target)
  | .rrsig r => .rrsig { r with signerName := f r.signerName }
  | .nsec nextDomain typeBitMaps => .nsec (f nextDomain) typeBitMaps
  | p => p

end FastDns.Dns

namespace FastDns.Dnssec

open FastDns.Lib FastDns.Dns

/-- The RDATA with the ASCII letters of its names in lower case. -/
def lowerRdata (p : RData) : Bytes := decompressedRdata (p.mapNames (List.map asciiLower))

/-- `record_rdata_canonical` has an arm for the constructor. -/
def hasCanonicalArm : RData → Bool
  | .srv _ _ _ _ | .rrsig _ | .nsec3 _ => false
  | _ => true

section Faithful

variable {a b w : Bytes}

/-- Two names after each other are in lower case exactly if each of them is. -/
theorem canonicalName_append_iff (ha : WireName a) (hb : WireName b) :
    canonicalName a ++ canonicalName b = a.map asciiLower ++ b.map asciiLower ↔
      canonicalName a = a.map asciiLower ∧ canonicalName b = b.map asciiLower := by
  obtain ⟨as, has, rfl⟩ := ha
  obtain ⟨bs, hbs, rfl⟩ := hb
  rw [map_asciiLower_wireName has, map_asciiLower_wireName hbs]
  constructor
  · intro h
    have hne : wireName (lowerAll bs) ≠ [] := WireName.ne_nil ⟨_, hbs.lowerAll, rfl⟩
    have hne' : wireName (lowerAll as) ≠ [] := WireName.ne_nil ⟨_, has.lowerAll, rfl⟩
    rcases canonicalName_cases (wireName as) with ha | ⟨as', has', ha⟩
    · -- Then the second name would have to be both names.
      rw [ha, List.nil_append] at h
      rcases canonicalName_cases (wireName bs) with hb | ⟨bs', hbs', hb⟩
      · rw [hb] at h
        exact absurd (List.append_eq_nil_iff.mp h.symm).1 hne'
      · rw [hb, ← List.append_nil (wireName bs')] at h
        exact absurd (wireName_append_inj hbs' has.lowerAll h).2.symm hne
    · rw [ha] at h ⊢
      obtain ⟨hnames, hrest⟩ := wireName_append_inj has' has.lowerAll h
      exact ⟨congrArg wireName hnames, hrest⟩
  · rintro ⟨ha, hb⟩
    rw [ha, hb]

/-- **The canonical form of a record is its RDATA with the names in lower case
exactly if its type has one and its names come back from their text.** -/
theorem canonical_faithful_iff {r : ResourceRecord} {p : RData} (hparsed : r.parsed = some p)
    (hlayout : RdataLayout r.rtype r.rdata p) (hrrsig : ∀ s, p ≠ .rrsig s) :
    recordRdataCanonical r = lowerRdata p ↔
      hasCanonicalArm p = true ∧ ∀ name ∈ p.embeddedNames, TextSafe name := by
  rw [recordRdataCanonical, hparsed]
  generalize r.rtype = rtype at hlayout
  generalize r.rdata = rdata at hlayout
  cases hlayout with
  | cname hn | ns hn | ptr hn =>
      simpa [lowerRdata, RData.mapNames, decompressedRdata, hasCanonicalArm, RData.embeddedNames]
        using canonicalName_eq_iff hn
  | mx hn =>
      simpa [lowerRdata, RData.mapNames, decompressedRdata, hasCanonicalArm, RData.embeddedNames]
        using canonicalName_eq_iff hn
  | nsec hn =>
      simpa [lowerRdata, RData.mapNames, decompressedRdata, hasCanonicalArm, RData.embeddedNames]
        using canonicalName_eq_iff hn
  | soa hm hr =>
      simp only [lowerRdata, RData.mapNames, decompressedRdata, hasCanonicalArm,
        RData.embeddedNames, List.append_cancel_right_eq, canonicalName_append_iff hm hr,
        canonicalName_eq_iff hm, canonicalName_eq_iff hr, List.forall_mem_cons,
        List.not_mem_nil, true_and, false_implies, implies_true, and_true]
  | srv hn =>
      simp [lowerRdata, RData.mapNames, decompressedRdata, hasCanonicalArm, u16ToBeBytes]
  | rrsig hn => exact absurd rfl (hrrsig _)
  | _ =>
      simp [lowerRdata, RData.mapNames, decompressedRdata, hasCanonicalArm, RData.embeddedNames,
        dnskeyRdata]

end Faithful

/-! ### Character-strings -/

/-- The RDATA of a TXT record with these character-strings. -/
def txtRdata (strings : List Bytes) : Bytes := strings.flatMap fun s => UInt8.ofNat s.length :: s

/-- The record at `offset`, whose owner name ends at `e`, is parsed into one with
the RDATA that was received, and the same bytes are signed. -/
def TxtPreserved (data : Bytes) (offset e : Nat) : Prop :=
  ∃ r next, ResourceRecord.fromBytes data offset = .ok (r, next) ∧
    r.rdata = rawRdataAt data e ∧ recordRdataCanonical r = rawRdataAt data e

section Txt

variable {strings : List Bytes}

theorem length_txtRdata_filter_le (keep : Bytes → Bool) (strings : List Bytes) :
    (txtRdata (strings.filter keep)).length ≤ (txtRdata strings).length :=
  (List.filter_sublist.flatMap _).length_le

/-- Dropping a character-string shows in the RDATA. -/
theorem txtRdata_filter_eq_iff (keep : Bytes → Bool) :
    txtRdata (strings.filter keep) = txtRdata strings ↔ ∀ s ∈ strings, keep s = true := by
  induction strings with
  | nil => simp
  | cons s strings ih =>
      have hcons : ∀ rest, txtRdata (s :: rest) = UInt8.ofNat s.length :: s ++ txtRdata rest :=
        fun _ => List.flatMap_cons
      rw [List.forall_mem_cons, ← ih, List.filter_cons]
      by_cases hs : keep s = true
      · rw [if_pos hs, hcons, hcons, List.append_cancel_left_eq]
        exact ⟨fun h => ⟨hs, h⟩, fun h => h.2⟩
      · rw [if_neg hs, hcons]
        constructor
        · intro h
          have hle := length_txtRdata_filter_le keep strings
          rw [h, List.length_append, List.length_cons] at hle
          omega
        · exact fun h => absurd h.1 hs

/-- **A TXT record is kept as it was received exactly when all of its
character-strings are UTF-8.** -/
theorem txt_preserved_iff (data : Bytes) (offset : Nat) (n : Bytes) (e : Nat)
    (strings : List Bytes) (hname : decodeDomainName data offset = .ok (n, e))
    (htype : u16At data e = 16) (hfits : e + 10 + rdlenAt data e ≤ data.length)
    (hstrings : ∀ s ∈ strings, s.length ≤ 255) (hrdata : rawRdataAt data e = txtRdata strings) :
    TxtPreserved data offset e ↔ ∀ s ∈ strings, validUtf8 s = true := by
  have hparsed : parseRdata (u16At data e) (rawRdataAt data e) data (e + 10) =
      .ok (some (.txt (strings.filter validUtf8))) := by
    rw [htype, hrdata]
    change parseTxtRdata _ = _
    rw [parseTxtRdata, txtRdata, txtParts_flatMap hstrings (Nat.le_refl _)]
    rfl
  have hread : ResourceRecord.fromBytes data offset =
      .ok (recordWith data n e (some (.txt (strings.filter validUtf8))),
        e + 10 + rdlenAt data e) := by
    rw [record_of_fits (decodeDomainName_eq_ok.mp hname) hfits, hparsed, Outcome.ok_bind]
  rw [TxtPreserved, hrdata, ← txtRdata_filter_eq_iff]
  constructor
  · rintro ⟨r, next, hr, hsame, _⟩
    rw [hread] at hr
    cases hr
    exact hsame
  · exact fun hsame => ⟨_, _, hread, hsame, hsame⟩

end Txt

/-- A TXT record of the root with these character-strings, as a message. -/
def txtMessage (strings : List Bytes) : Bytes :=
  [0, 0, 16, 0, 1, 0, 0, 0, 60] ++ u16ToBeBytes (UInt16.ofNat (txtRdata strings).length) ++
    txtRdata strings

theorem txt_preserved_ascii : TxtPreserved (txtMessage [[0x68, 0x69], []]) 0 1 :=
  (txt_preserved_iff _ 0 [0] 1 [[0x68, 0x69], []] rfl rfl (by decide) (by decide) rfl).mpr
    (by decide)

/-- A character-string that is the byte `0xFF` is gone after parsing. -/
theorem txt_byte_lost :
    ResourceRecord.fromBytes (txtMessage [[0xFF], [0x68]]) 0 =
        .ok (⟨[0], 16, 1, 60, 2, [1, 0x68], some (.txt [[0x68]])⟩, 15) ∧
      rawRdataAt (txtMessage [[0xFF], [0x68]]) 1 = txtRdata [[0xFF], [0x68]] ∧
      ¬ TxtPreserved (txtMessage [[0xFF], [0x68]]) 0 1 := by
  have hread : ResourceRecord.fromBytes (txtMessage [[0xFF], [0x68]]) 0 =
      .ok (⟨[0], 16, 1, 60, 2, [1, 0x68], some (.txt [[0x68]])⟩, 15) := by
    decide +kernel
  refine ⟨hread, rfl, ?_⟩
  rintro ⟨r, next, hr, hrdata, _⟩
  rw [hread] at hr
  cases hr
  exact absurd hrdata (by decide)

end FastDns.Dnssec
