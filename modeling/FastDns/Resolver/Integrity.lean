/-
An RRset that goes through the cache (`insert_records`, then `lookup`).

The records of a key are a window of sixteen over all records inserted under it
(`Lib/Window.lean`), so a batch meets what older batches left: it is added to
the old records, it skips records whose RDATA is there already, and it pushes
out the oldest ones. `served_exact_iff` says exactly when a lookup right after
the insertion returns the batch and nothing else.

* **`inserted_rrset_served`.** What such a lookup returns in every case, and
  when it is the batch itself.
-/

import FastDns.Lib.Window
import FastDns.Resolver.CachedKeys
import FastDns.Resolver.Freshness

namespace FastDns.Resolver

open FastDns.Lib FastDns.Dns

/-- Records of one key with pairwise distinct RDATA, none with a TTL of zero. -/
structure IsRrset (k : CacheKey) (rrset : List ResourceRecord) : Prop where
  key : ∀ r ∈ rrset, (r.name, r.rtype, r.rclass) = k
  distinct : (rrset.map fun r => r.rdata).Nodup
  ttl : ∀ r ∈ rrset, r.ttl ≠ 0

namespace DnsCache

/-- The entries `insert_records` builds for an RRset of the key. -/
def newEntries (now : Nat) (k : CacheKey) (rrset : List ResourceRecord) : List CacheEntry :=
  rrset.map fun r => newEntry now k r.ttl r.rdata r.rdlength

/-- The RDATA a lookup returns right after the RRset was inserted. -/
def servedAfter (c : DnsCache) (now : Nat) (k : CacheKey) (rrset : List ResourceRecord) :
    List Bytes :=
  ((c.insertRecords now rrset).served now k).map fun r => r.rdata

/-- The lookup returns the RRset, all of it and nothing else. -/
def ServesExactly (c : DnsCache) (now : Nat) (k : CacheKey) (rrset : List ResourceRecord) : Prop :=
  ∀ rdata, rdata ∈ c.servedAfter now k rrset ↔ rdata ∈ rrset.map fun r => r.rdata

/-- The stored records give way to the RRset: each of them is pushed out in
time, or it is served exactly if its RDATA is in the RRset. -/
def GivesWay (now : Nat) (old : List CacheEntry) (k : CacheKey) (rrset : List ResourceRecord) :
    Prop :=
  ∃ gone kept, Window.Replaces maxRecordsPerKey (fun e : CacheEntry => e.record.rdata)
    (fun e => !e.isExpired now) old (newEntries now k rrset) gone kept

section Batch

variable {c : DnsCache} {now : Nat} {k : CacheKey} {rrset : List ResourceRecord}

/-- A batch under one key adds its entries one after the other. -/
theorem recordsOf_insertRecords (hkey : ∀ r ∈ rrset, (r.name, r.rtype, r.rclass) = k)
    (httl : ∀ r ∈ rrset, r.ttl ≠ 0) :
    ((c.insertRecords now rrset).recordsOf k).getD [] =
      (newEntries now k rrset).foldl addEntry ((c.recordsOf k).getD []) := by
  induction rrset generalizing c with
  | nil => rfl
  | cons r rest ih =>
      have hr := hkey r List.mem_cons_self
      have hrest := ih (c := c.insert now k r.ttl r.rdata r.rdlength)
        (fun r hr => hkey r (List.mem_cons_of_mem _ hr))
        (fun r hr => httl r (List.mem_cons_of_mem _ hr))
      rw [recordsOf_insert_self (httl r List.mem_cons_self), Option.getD_some] at hrest
      rw [newEntries, List.map_cons, List.foldl_cons]
      rw [insertRecords, List.foldl_cons, hr]
      exact hrest

theorem mem_served_rdata {rdata : Bytes} :
    rdata ∈ (c.served now k).map (fun r => r.rdata) ↔
      ∃ e ∈ (c.recordsOf k).getD [], (!e.isExpired now) = true ∧ e.record.rdata = rdata := by
  unfold served lookup recordsOf
  cases c.entries.get? k with
  | none => simp
  | some vec =>
      have hfilter : rdata ∈ (vec.filter fun e => !e.isExpired now).map (fun e => e.record.rdata) ↔
          ∃ e ∈ vec, (!e.isExpired now) = true ∧ e.record.rdata = rdata := by
        simp only [List.mem_map, List.mem_filter, and_assoc]
      rw [Option.getD_some, ← hfilter]
      by_cases hfresh : (vec.filter fun e => !e.isExpired now).isEmpty = true
      · simp only [hfresh, if_true]
        rw [List.isEmpty_iff.mp hfresh]
        rfl
      · simp only [hfresh, Bool.false_eq_true, if_false, Option.map_some, Option.getD_some]
        rw [withRemainingTtl, List.map_map]
        rfl

theorem map_rdata_newEntries :
    ((newEntries now k rrset).map fun e => e.record.rdata) = rrset.map fun r => r.rdata := by
  rw [newEntries, List.map_map]
  rfl

/-- A new entry outlives the moment of its insertion. -/
theorem newEntries_live (httl : ∀ r ∈ rrset, r.ttl ≠ 0) :
    ∀ e ∈ newEntries now k rrset, (!e.isExpired now) = true := by
  intro e he
  obtain ⟨r, hr, rfl⟩ := List.mem_map.mp he
  have hlater : now < (newEntry now k r.ttl r.rdata r.rdlength).expiresAt := lt_expiry (httl r hr)
  simp [CacheEntry.isExpired, hlater]

/-- What a reachable cache holds under a key. -/
theorem Reachable.stored (hc : c.Reachable) (k : CacheKey) :
    ((c.recordsOf k).getD []).length ≤ maxRecordsPerKey ∧
      (((c.recordsOf k).getD []).map fun e => e.record.rdata).Nodup := by
  cases h : c.recordsOf k with
  | none => exact ⟨Nat.zero_le _, List.nodup_nil⟩
  | some vec => exact ⟨(hc.wf k vec h).capped, (hc.wf k vec h).distinct⟩

/-- **The lookup after an insertion returns the RRset and nothing else exactly
when the stored records give way to it.** -/
theorem served_exact_iff (hc : c.Reachable) (hset : IsRrset k rrset) :
    c.ServesExactly now k rrset ↔ GivesWay now ((c.recordsOf k).getD []) k rrset := by
  obtain ⟨hlen, hdistinct⟩ := hc.stored k
  simp only [ServesExactly, servedAfter, mem_served_rdata,
    recordsOf_insertRecords hset.key hset.ttl, addEntry_eq]
  rw [GivesWay, ← Window.addAll_exact_iff (by decide) hlen hdistinct
    (map_rdata_newEntries ▸ hset.distinct) (newEntries_live hset.ttl), map_rdata_newEntries]

end Batch

end DnsCache

/-- **What a lookup returns right after `insert_records`**: nothing but the RRset
and live records that were there before; everything of an RRset of at most
sixteen records that was not there before; and the RRset itself where the
stored records give way to it, as they do where there are none. -/
theorem inserted_rrset_served (c : DnsCache) (hc : c.Reachable) (now : Nat) (k : CacheKey)
    (rrset : List ResourceRecord) (hset : IsRrset k rrset) :
    (∀ rdata ∈ c.servedAfter now k rrset,
      (rdata ∈ rrset.map fun r => r.rdata) ∨
        ∃ e ∈ (c.recordsOf k).getD [], e.isExpired now = false ∧ e.record.rdata = rdata) ∧
    (rrset.length ≤ maxRecordsPerKey → ∀ r ∈ rrset,
      (∀ e ∈ (c.recordsOf k).getD [], e.record.rdata ≠ r.rdata) →
      r.rdata ∈ c.servedAfter now k rrset) ∧
    (DnsCache.GivesWay now ((c.recordsOf k).getD []) k rrset → c.ServesExactly now k rrset) ∧
    (c.recordsOf k = none → rrset.length ≤ maxRecordsPerKey →
      DnsCache.GivesWay now ((c.recordsOf k).getD []) k rrset) := by
  obtain ⟨hlen, hdistinct⟩ := hc.stored k
  refine ⟨?_, ?_, (DnsCache.served_exact_iff hc hset).mpr, ?_⟩
  · intro rdata hserved
    obtain ⟨e, he, helive, rfl⟩ := DnsCache.mem_served_rdata.mp hserved
    rw [DnsCache.recordsOf_insertRecords hset.key hset.ttl, DnsCache.addEntry_eq] at he
    rcases Window.mem_addAll he with hold | hnew
    · exact .inr ⟨e, hold, by simpa using helive, rfl⟩
    · exact .inl (DnsCache.map_rdata_newEntries ▸ List.mem_map_of_mem hnew)
  · intro hsize r hr hnew
    have hrdata : r.rdata ∈ (DnsCache.newEntries now k rrset).map fun e => e.record.rdata := by
      rw [DnsCache.map_rdata_newEntries]
      exact List.mem_map_of_mem hr
    obtain ⟨y, hy, hyr⟩ := List.mem_map.mp hrdata
    have hbatch : (DnsCache.newEntries now k rrset).length ≤ maxRecordsPerKey := by
      rw [DnsCache.newEntries, List.length_map]
      exact hsize
    have hnotold : y.record.rdata ∉
        ((c.recordsOf k).getD []).map fun e : CacheEntry => e.record.rdata := by
      intro hold
      obtain ⟨e, he, hey⟩ := List.mem_map.mp hold
      exact hnew e he (hey.trans hyr)
    obtain ⟨e, he, hey⟩ := List.mem_map.mp
      (Window.key_mem_addAll (by decide) hlen hbatch hy hnotold)
    rw [DnsCache.servedAfter, DnsCache.mem_served_rdata,
      DnsCache.recordsOf_insertRecords hset.key hset.ttl, DnsCache.addEntry_eq]
    refine ⟨e, he, ?_, hey.trans hyr⟩
    -- The entry with that RDATA is not an old one, so it is a new one.
    rcases Window.mem_addAll he with hold | hentry
    · exact absurd (hey.trans hyr) (hnew e hold)
    · exact DnsCache.newEntries_live hset.ttl e hentry
  · intro hnone hsize
    rw [hnone]
    refine ⟨[], [], Window.replaces_nil ?_⟩
    rw [DnsCache.newEntries, List.length_map]
    exact hsize

/-- An address record of the root. -/
def addressRecord (last : UInt8) : ResourceRecord := ⟨[0], 1, 1, 300, 4, [10, 0, 0, last], none⟩

/-- Of seventeen addresses one is lost, and a second address set is served
together with the first one. -/
theorem rrset_cut_and_mixed :
    (IsRrset ([0], 1, 1) ((List.range 17).map fun i => addressRecord (.ofNat i)) ∧
      ¬ DnsCache.new.ServesExactly 0 ([0], 1, 1)
        ((List.range 17).map fun i => addressRecord (.ofNat i))) ∧
    (DnsCache.new.insertRecords 0 [addressRecord 1]).Reachable ∧
      ¬ (DnsCache.new.insertRecords 0 [addressRecord 1]).ServesExactly 1 ([0], 1, 1)
        [addressRecord 2] := by
  refine ⟨⟨⟨?_, by decide +kernel, ?_⟩, fun h => ?_⟩, ?_, fun h => ?_⟩
  · intro r hr
    obtain ⟨i, _, rfl⟩ := List.mem_map.mp hr
    rfl
  · intro r hr
    obtain ⟨i, _, rfl⟩ := List.mem_map.mp hr
    exact show (300 : UInt32) ≠ 0 by decide
  · exact absurd ((h [10, 0, 0, 0]).mpr (by decide +kernel)) (by decide +kernel)
  · exact ⟨[(0, .insertRecord (addressRecord 1))], .inl rfl⟩
  · exact absurd ((h [10, 0, 0, 1]).mp (by decide +kernel)) (by decide +kernel)

/-- Two addresses in an empty cache. -/
theorem inserted_rrset_served_two :
    DnsCache.new.ServesExactly 0 ([0], 1, 1) [addressRecord 1, addressRecord 2] := by
  have hset : IsRrset ([0], 1, 1) [addressRecord 1, addressRecord 2] :=
    ⟨by simp [addressRecord], by decide, by simp [addressRecord]⟩
  have hserved := inserted_rrset_served DnsCache.new ⟨[], .inl rfl⟩ 0 ([0], 1, 1) _ hset
  exact hserved.2.2.1 (hserved.2.2.2 rfl (by decide))

end FastDns.Resolver
