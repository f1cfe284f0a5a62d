/-
Records on their way out again: `ResourceRecord::to_bytes` on what was decoded, and
on what the cache has kept of it.

`to_bytes` takes `rdlength` for the length of `rdata` and panics where they
differ. A decoded record has the right length exactly if its RDATA fits into 65535
bytes with its names written out, and the cache stores both fields as they are. So
a cache that was only given such records never hands out one that cannot be
written (`rdlength_describes_rdata`).
-/

import FastDns.Dns.Expansion
import FastDns.Resolver.History

namespace FastDns.Resolver

open FastDns.Lib FastDns.Dns

/-- The record was decoded somewhere, and its RDATA fits with its names written out. -/
def DecodedInFull (r : ResourceRecord) : Prop :=
  ∃ data offset next n e, ResourceRecord.fromBytes data offset = .ok (r, next) ∧
    decodeDomainName data offset = .ok (n, e) ∧ ExpansionFits data e

/-- If the call stores an RDATA, it is that of such a record. -/
def CacheOp.StoresInFull : CacheOp → Prop
  | .insert _ _ rdata rdlength => ∃ r, DecodedInFull r ∧ rdata = r.rdata ∧ rdlength = r.rdlength
  | .lookup _ | .lookupStale _ | .purgeExpired | .clear => True

/-- The record can be written into any buffer without a panic. -/
def Writes (r : ResourceRecord) : Prop := ∀ room, r.toBytes room ≠ .panic

namespace DnsCache

/-- The records a cache has under a key: those of both stores, and the copies that
its two lookups return. -/
inductive Has (c : DnsCache) (t : Nat) (k : CacheKey) : ResourceRecord → Prop where
  | stored {vec : List CacheEntry} {e : CacheEntry} : c.recordsOf k = some vec → e ∈ vec →
      Has c t k e.record
  | stale {vec : List CacheEntry} {e : CacheEntry} : c.staleOf k = some vec → e ∈ vec →
      Has c t k e.record
  | lookup {records : List ResourceRecord} {least : UInt32} {r : ResourceRecord} :
      (c.lookup t k).1 = some (records, least) → r ∈ records → Has c t k r
  | lookupStale {records : List ResourceRecord} {r : ResourceRecord} :
      (c.lookupStale t k).1 = some records → r ∈ records → Has c t k r

section Kept

variable {max : Option Nat} {calls : Calls} {t : Nat} {k : CacheKey} {r : ResourceRecord}

/-- An entry of either store has the RDATA and the length of some insertion. -/
theorem entry_inserted {vec : List CacheEntry} {e : CacheEntry}
    (hvec : ((create max).runOps calls.history).recordsOf k = some vec ∨
      ((create max).runOps calls.history).staleOf k = some vec) (he : e ∈ vec) :
    ∃ s ttl, (s, .insert k ttl e.record.rdata e.record.rdlength) ∈ calls.history := by
  rcases hvec with hvec | hvec
  · obtain ⟨s, ttl, rdata, rdlength, hmem, _, rfl⟩ :=
      recordsOf_inserted (recordsOf_create max) _ hvec he
    exact ⟨s, ttl, hmem⟩
  · obtain ⟨_, before, t', after, main, hsplit, hmain, rfl⟩ :=
      staleOf_moved (staleOf_create max) _ hvec
    obtain ⟨s, ttl, rdata, rdlength, hmem, _, rfl⟩ :=
      recordsOf_inserted (recordsOf_create max) before hmain (List.mem_of_mem_filter he)
    refine ⟨s, ttl, ?_⟩
    rw [hsplit]
    exact List.mem_append_left _ hmem

/-- **Whatever a cache has was inserted, with the same RDATA and length field.** -/
theorem Has.inserted (h : Has ((create max).runCalls calls) t k r) :
    ∃ s ttl, (s, .insert k ttl r.rdata r.rdlength) ∈ calls.history := by
  rw [runCalls_eq_runOps] at h
  cases h with
  | stored hvec he => exact entry_inserted (.inl hvec) he
  | stale hvec he => exact entry_inserted (.inr hvec) he
  | lookup hlookup hr =>
      obtain ⟨vec, hvec, fresh, rfl, _, rfl, _⟩ := lookup_eq_some hlookup
      obtain ⟨e, he, rfl⟩ := List.mem_map.mp hr
      exact entry_inserted (.inl hvec) (List.mem_of_mem_filter he)
  | lookupStale hlookup hr =>
      obtain ⟨vec, hvec, rfl⟩ := lookupStale_eq_some hlookup
      obtain ⟨e, he, rfl⟩ := List.mem_map.mp hr
      exact entry_inserted (.inr hvec) (List.mem_of_mem_filter he)

end Kept

end DnsCache

open DnsCache

/-- **`rdlength` describes `rdata`** of a decoded record exactly if the RDATA with
its names written out fits into 65535 bytes, and exactly then `to_bytes` does not
panic. A cache that has been given such records only has no other. -/
theorem rdlength_describes_rdata (data : Bytes) (offset : Nat) (r : ResourceRecord) (next : Nat)
    (n : Bytes) (e : Nat) (max : Option Nat) (calls : Calls) :
    (ResourceRecord.fromBytes data offset = .ok (r, next) →
      decodeDomainName data offset = .ok (n, e) →
      (r.rdlength.toNat = r.rdata.length ↔ ExpansionFits data e) ∧
        (Writes r ↔ ExpansionFits data e)) ∧
      ((∀ call ∈ calls.history, call.2.StoresInFull) →
        ∀ t k r, Has ((create max).runCalls calls) t k r →
          r.rdlength.toNat = r.rdata.length ∧ Writes r) := by
  constructor
  · intro hread hname
    have hlengths := lengths_agree_iff hread (decodeDomainName_eq_ok.mp hname)
    exact ⟨hlengths, (toBytes_ne_panic_iff r).trans hlengths⟩
  · intro hstores t k r hhas
    obtain ⟨s, ttl, hmem⟩ := hhas.inserted
    obtain ⟨r', ⟨data, offset, next, n, e, hread, hname, hfits⟩, hrdata, hrdlength⟩ :=
      hstores _ hmem
    have hlengths : r.rdlength.toNat = r.rdata.length := by
      rw [hrdata, hrdlength]
      exact (lengths_agree_iff hread (decodeDomainName_eq_ok.mp hname)).mpr hfits
    exact ⟨hlengths, (toBytes_ne_panic_iff r).mpr hlengths⟩

/-- An NS record of the root that names the root itself, by a pointer. -/
def rootServerMessage : Bytes := [0, 0, 2, 0, 1, 0, 0, 0, 60, 0, 2, 0xc0, 0]

def rootServer : ResourceRecord := ⟨[0], 2, 1, 60, 1, [0], some (.ns [0])⟩

/-- It can be written, also half a minute later from the cache. -/
theorem rdlength_describes_rootServer :
    Writes rootServer ∧
      Has ((create none).runCalls [(0, .insertRecords [rootServer])]) (nanos 30) ([0], 2, 1)
        ⟨[0], 2, 1, 30, 1, [0], none⟩ ∧
      Writes ⟨[0], 2, 1, 30, 1, [0], none⟩ := by
  have hread : ResourceRecord.fromBytes rootServerMessage 0 = .ok (rootServer, 13) := rfl
  have hname : decodeDomainName rootServerMessage 0 = .ok ([0], 1) := rfl
  obtain ⟨hlengths, hwrites⟩ := (rdlength_describes_rdata _ _ _ _ _ _ none []).1 hread hname
  have hfits : ExpansionFits rootServerMessage 1 := hlengths.mp rfl
  have hlookup : (((create none).runCalls [(0, .insertRecords [rootServer])]).lookup (nanos 30)
      ([0], 2, 1)).1 = some ([⟨[0], 2, 1, 30, 1, [0], none⟩], 30) := by decide +kernel
  have hhas : Has ((create none).runCalls [(0, .insertRecords [rootServer])]) (nanos 30)
      ([0], 2, 1) ⟨[0], 2, 1, 30, 1, [0], none⟩ := .lookup hlookup (List.mem_singleton_self _)
  have hstores : ∀ call ∈ Calls.history [(0, .insertRecords [rootServer])],
      call.2.StoresInFull := by
    intro call hcall
    rw [show Calls.history [(0, .insertRecords [rootServer])] =
      [(0, CacheOp.insertRecord rootServer)] from rfl, List.mem_singleton] at hcall
    rw [hcall]
    exact ⟨rootServer, ⟨_, _, _, _, _, hread, hname, hfits⟩, rfl, rfl⟩
  have hkept := (rdlength_describes_rdata rootServerMessage 0 rootServer 13 [0] 1 none _).2 hstores
  exact ⟨hwrites.mpr hfits, hhas, (hkept _ _ _ hhas).2⟩

/-- A message of 2211 bytes decodes into a record of 67585 bytes of RDATA with the
length field 2049, and writing that record panics. -/
theorem long_name_wraps :
    longMessage.length = 2211 ∧ ∃ m r, decodeMessage longMessage = .ok m ∧ r ∈ m.answers ∧
      ResourceRecord.fromBytes longMessage 2198 = .ok (r, 2211) ∧
      r.rdlength.toNat = 2049 ∧ r.rdata.length = 67585 ∧ r.toBytes 65535 = .panic := by
  obtain ⟨m, r, hdecode, hmem, hread, hname, hrdlength, hrdata⟩ := longMessage_decoded
  have hroom : ¬ 65535 < r.name.length + 10 + r.rdlength.toNat := by
    rw [hname, hrdlength]
    decide
  have hlengths : r.rdata.length ≠ r.rdlength.toNat := by
    rw [hrdata, hrdlength]
    decide
  have hpanic : r.toBytes 65535 = .panic := (if_neg hroom).trans (if_pos hlengths)
  exact ⟨length_longMessage, m, r, hdecode, hmem, hread, by rw [hrdlength]; rfl, hrdata, hpanic⟩

end FastDns.Resolver
