/-
`DnsCache` (`src/resolver/cache.rs`): records by (name, type, class), with a
store of expired records for serve-stale.

Time is a number of nanoseconds and an argument of every operation that reads
the clock; an operation reads it once. `CacheOp` and `runOps` make the cache a
transition system, and `entries_apply` says once what one operation can do to
the records of a key. The well-formedness of every reachable cache (`Wf`)
follows from it.
-/

import FastDns.Dns.Types
import FastDns.Lib.Lru
import FastDns.Lib.Window

namespace FastDns.Resolver

open FastDns.Lib FastDns.Dns

/-! ### The data -/

/-- Seconds in the unit of the clock. -/
def nanos (seconds : Nat) : Nat := seconds * 1000000000

/-- `MAX_CACHE_ENTRIES` -/
def maxCacheEntries : Nat := 100000

/-- `STALE_MAX_AGE` -/
def staleMaxAge : Nat := nanos (6 * 3600)

/-- `STALE_MAX_ENTRIES` -/
def staleMaxEntries : Nat := 50000

/-- `MAX_RECORDS_PER_KEY` -/
def maxRecordsPerKey : Nat := 16

/-- Name, type and class. -/
abbrev CacheKey := Bytes × UInt16 × UInt16

structure CacheEntry where
  record : ResourceRecord
  expiresAt : Nat
deriving DecidableEq, Repr

/-- `CacheEntry::is_expired` -/
def CacheEntry.isExpired (e : CacheEntry) (now : Nat) : Bool := now ≥ e.expiresAt

/-- `CacheEntry::ttl_remaining` -/
def CacheEntry.ttlRemaining (e : CacheEntry) (now : Nat) : UInt32 :=
  UInt32.ofNat ((e.expiresAt - now) / nanos 1)

structure DnsCache where
  entries : Lru CacheKey (List CacheEntry)
  staleEntries : Lru CacheKey (List CacheEntry)
  maxEntries : Nat
  hits : Nat
  misses : Nat

namespace DnsCache

/-- `DnsCache::new` -/
def new : DnsCache where
  entries := .new maxCacheEntries (by decide)
  staleEntries := .new staleMaxEntries (by decide)
  maxEntries := maxCacheEntries
  hits := 0
  misses := 0

/-- `DnsCache::with_max_entries` -/
def withMaxEntries (max : Nat) : DnsCache where
  entries := .new (Nat.max max 1) (Nat.le_max_right _ _)
  staleEntries := .new (Nat.max 1000 (Nat.min staleMaxEntries (max / 5)))
    (Nat.lt_of_lt_of_le (by decide) (Nat.le_max_left _ _))
  maxEntries := max
  hits := 0
  misses := 0

/-! ### The operations -/

/-- When a record cached now expires: the TTL is clamped to 24 hours. -/
def expiry (now : Nat) (ttl : UInt32) : Nat := now + nanos (min ttl 86400).toNat

/-- The entry `insert` builds. -/
def newEntry (now : Nat) (key : CacheKey) (ttl : UInt32) (rdata : Bytes) (rdlength : UInt16) :
    CacheEntry where
  record := {
    name := key.1
    rtype := key.2.1
    rclass := key.2.2
    ttl := min ttl 86400
    rdlength
    rdata
    parsed := none }
  expiresAt := expiry now ttl

/-- `vec.iter().any(|e| e.record.rdata == ..)` -/
def hasRdata (vec : List CacheEntry) (rdata : Bytes) : Bool :=
  vec.any fun e => e.record.rdata == rdata

/-- A full list loses its oldest record to the new one. -/
def pushEntry (vec : List CacheEntry) (entry : CacheEntry) : List CacheEntry :=
  (if vec.length ≥ maxRecordsPerKey then vec.drop 1 else vec) ++ [entry]

/-- `DnsCache::insert` -/
def insert (c : DnsCache) (now : Nat) (key : CacheKey) (ttl : UInt32) (rdata : Bytes)
    (rdlength : UInt16) : DnsCache :=
  if ttl = 0 then c
  else
    let entry := newEntry now key ttl rdata rdlength
    match c.entries.get? key with
    | some vec =>
        -- `get_mut` has made the key the one used last, also when nothing is stored.
        if hasRdata vec rdata then { c with entries := c.entries.touch key }
        else { c with entries := c.entries.put key (pushEntry vec entry) }
    | none => { c with entries := c.entries.put key [entry] }

/-- The records `lookup` hands out, each with the TTL it has left. -/
def withRemainingTtl (now : Nat) (entries : List CacheEntry) : List ResourceRecord :=
  entries.map fun e => { e.record with ttl := e.ttlRemaining now }

/-- The least remaining TTL, `u32::MAX` of nothing. -/
def minTtl (now : Nat) (entries : List CacheEntry) : UInt32 :=
  entries.foldl (fun m e => min m (e.ttlRemaining now)) 0xffffffff

/-- `DnsCache::lookup` -/
def lookup (c : DnsCache) (now : Nat) (key : CacheKey) :
    Option (List ResourceRecord × UInt32) × DnsCache :=
  match c.entries.get? key with
  | none => (none, { c with misses := c.misses + 1 })
  | some entries =>
      let stale := entries.filter fun e => e.isExpired now
      let fresh := entries.filter fun e => !e.isExpired now
      let c := if stale.isEmpty then c
        else { c with staleEntries := c.staleEntries.put key stale }
      if fresh.isEmpty then
        (none, { c with entries := c.entries.pop key, misses := c.misses + 1 })
      else
        (some (withRemainingTtl now fresh, minTtl now fresh),
          { c with entries := c.entries.put key fresh, hits := c.hits + 1 })

/-- Not too old for serve-stale. -/
def usableStale (now : Nat) (e : CacheEntry) : Bool := now - e.expiresAt < staleMaxAge

/-- `DnsCache::lookup_stale` -/
def lookupStale (c : DnsCache) (now : Nat) (key : CacheKey) :
    Option (List ResourceRecord) × DnsCache :=
  match c.staleEntries.get? key with
  | none => (none, c)
  | some entries =>
      let usable := entries.filter (usableStale now)
      let c := { c with staleEntries := c.staleEntries.touch key }
      if usable.isEmpty then (none, { c with staleEntries := c.staleEntries.pop key })
      else (some (usable.map fun e => { e.record with ttl := 0 }), c)

/-- `DnsCache::insert_records` -/
def insertRecords (c : DnsCache) (now : Nat) (records : List ResourceRecord) : DnsCache :=
  records.foldl (fun c r => c.insert now (r.name, r.rtype, r.rclass) r.ttl r.rdata r.rdlength) c

/-- `DnsCache::purge_expired` -/
def purgeExpired (c : DnsCache) (now : Nat) : DnsCache :=
  let tooOld := c.staleEntries.toList.filter fun e => e.2.all fun x => !usableStale now x
  { c with staleEntries := tooOld.foldl (fun s e => s.pop e.1) c.staleEntries }

/-- `DnsCache::clear` -/
def clear (c : DnsCache) : DnsCache :=
  { c with entries := c.entries.clear, staleEntries := c.staleEntries.clear, hits := 0, misses := 0 }

end DnsCache

/-! ### Histories -/

/-- The calls a cache can receive. -/
inductive CacheOp where
  | insert (key : CacheKey) (ttl : UInt32) (rdata : Bytes) (rdlength : UInt16)
  | lookup (key : CacheKey)
  | lookupStale (key : CacheKey)
  | purgeExpired
  | clear
deriving DecidableEq, Repr

/-- Calls with the times at which they are made. -/
abbrev History := List (Nat × CacheOp)

namespace DnsCache

/-- The cache after one call. -/
def apply (c : DnsCache) (now : Nat) : CacheOp → DnsCache
  | .insert key ttl rdata rdlength => c.insert now key ttl rdata rdlength
  | .lookup key => (c.lookup now key).2
  | .lookupStale key => (c.lookupStale now key).2
  | .purgeExpired => c.purgeExpired now
  | .clear => c.clear

/-- The cache after a history. -/
def runOps (c : DnsCache) : History → DnsCache
  | [] => c
  | (now, op) :: rest => runOps (c.apply now op) rest

theorem runOps_append (c : DnsCache) (h₁ h₂ : History) :
    c.runOps (h₁ ++ h₂) = (c.runOps h₁).runOps h₂ := by
  induction h₁ generalizing c with
  | nil => rfl
  | cons op rest ih => exact ih _

/-! ### One operation, one key -/

/-- The records of a key. -/
def recordsOf (c : DnsCache) (k : CacheKey) : Option (List CacheEntry) := c.entries.get? k

/-- What `insert` makes of the records of its key. -/
def addEntry (vec : List CacheEntry) (entry : CacheEntry) : List CacheEntry :=
  if hasRdata vec entry.record.rdata then vec else pushEntry vec entry

/-- What `lookup` leaves of the records of its key. -/
def freshOf (now : Nat) (vec : List CacheEntry) : Option (List CacheEntry) :=
  let fresh := vec.filter fun e => !e.isExpired now
  if fresh.isEmpty then none else some fresh

section Steps

variable {c : DnsCache} {now : Nat} {k : CacheKey}

theorem recordsOf_insert_self {ttl : UInt32} (httl : ttl ≠ 0) (rdata : Bytes) (rdlength : UInt16) :
    (c.insert now k ttl rdata rdlength).recordsOf k =
      some (addEntry ((c.recordsOf k).getD []) (newEntry now k ttl rdata rdlength)) := by
  unfold insert recordsOf
  simp only [httl, if_false]
  cases h : c.entries.get? k with
  | none => simp [addEntry, hasRdata, pushEntry, maxRecordsPerKey]
  | some vec =>
      cases hdup : hasRdata vec rdata with
      | true => simp [addEntry, newEntry, hdup, h]
      | false => simp [addEntry, newEntry, hdup]

theorem recordsOf_insert_zero (key : CacheKey) (rdata : Bytes) (rdlength : UInt16) :
    c.insert now key 0 rdata rdlength = c := if_pos rfl

/-- An insertion under another key leaves the records, or evicts them. -/
theorem recordsOf_insert_ne {j : CacheKey} (hne : k ≠ j) (ttl : UInt32) (rdata : Bytes)
    (rdlength : UInt16) :
    (c.insert now j ttl rdata rdlength).recordsOf k = c.recordsOf k ∨
      (c.insert now j ttl rdata rdlength).recordsOf k = none := by
  unfold insert recordsOf
  by_cases httl : ttl = 0
  · simp [httl]
  simp only [httl, if_false]
  cases h : c.entries.get? j with
  | none => exact Lru.get?_put_ne hne
  | some vec =>
      cases hdup : hasRdata vec rdata with
      | true => exact .inl (by simp only [hdup, if_true, Lru.get?_touch])
      | false =>
          simp only [hdup, Bool.false_eq_true, if_false]
          exact Lru.get?_put_ne hne

theorem recordsOf_lookup_self :
    (c.lookup now k).2.recordsOf k = (c.recordsOf k).bind (freshOf now) := by
  unfold lookup recordsOf
  cases h : c.entries.get? k with
  | none => simpa using h
  | some vec =>
      simp only [Option.bind_some, freshOf]
      by_cases hfresh : (vec.filter fun e => !e.isExpired now).isEmpty = true
      · simp only [hfresh, if_true, Lru.get?_pop_self]
      · rw [if_neg hfresh, if_neg hfresh]
        exact Lru.get?_put_self.trans rfl

theorem recordsOf_lookup_ne {j : CacheKey} (hne : k ≠ j) :
    (c.lookup now j).2.recordsOf k = c.recordsOf k := by
  unfold lookup recordsOf
  cases h : c.entries.get? j with
  | none => rfl
  | some vec =>
      have hstale : ∀ b : Bool, ∀ s, (if b then c else { c with staleEntries := s }).entries =
          c.entries := by
        intro b s
        cases b <;> rfl
      by_cases hfresh : (vec.filter fun e => !e.isExpired now).isEmpty = true
      · simp only [hfresh, if_true, hstale]
        exact Lru.get?_pop_ne hne
      · simp only [hfresh, Bool.false_eq_true, if_false, hstale]
        exact Lru.get?_put_of_mem (by rw [h]; simp) hne

theorem recordsOf_lookupStale {j : CacheKey} :
    (c.lookupStale now j).2.recordsOf k = c.recordsOf k := by
  unfold lookupStale recordsOf
  cases c.staleEntries.get? j with
  | none => rfl
  | some entries =>
      by_cases husable : (entries.filter (usableStale now)).isEmpty = true
      · simp only [husable, if_true]
      · simp only [husable]
        rfl

/-- **What one call can do to the records of a key**: extend them, drop the
expired ones, drop all of them, or nothing. -/
theorem recordsOf_apply (c : DnsCache) (now : Nat) (op : CacheOp) (k : CacheKey) :
    (∃ ttl rdata rdlength, op = .insert k ttl rdata rdlength ∧ ttl ≠ 0 ∧
      (c.apply now op).recordsOf k =
        some (addEntry ((c.recordsOf k).getD []) (newEntry now k ttl rdata rdlength))) ∨
    (op = .lookup k ∧ (c.apply now op).recordsOf k = (c.recordsOf k).bind (freshOf now)) ∨
    (op = .clear ∧ (c.apply now op).recordsOf k = none) ∨
    (∃ j ttl rdata rdlength, op = .insert j ttl rdata rdlength ∧ j ≠ k ∧
      (c.apply now op).recordsOf k = none) ∨
    (c.apply now op).recordsOf k = c.recordsOf k := by
  cases op with
  | insert j ttl rdata rdlength =>
      by_cases hjk : j = k
      · subst hjk
        by_cases httl : ttl = 0
        · subst httl
          exact .inr (.inr (.inr (.inr (by rw [apply, recordsOf_insert_zero]))))
        · exact .inl ⟨ttl, rdata, rdlength, rfl, httl, recordsOf_insert_self httl rdata rdlength⟩
      · rcases recordsOf_insert_ne (Ne.symm hjk) ttl rdata rdlength with hsame | hnone
        · exact .inr (.inr (.inr (.inr hsame)))
        · exact .inr (.inr (.inr (.inl ⟨j, ttl, rdata, rdlength, rfl, hjk, hnone⟩)))
  | lookup j =>
      by_cases hjk : j = k
      · subst hjk
        exact .inr (.inl ⟨rfl, recordsOf_lookup_self⟩)
      · exact .inr (.inr (.inr (.inr (recordsOf_lookup_ne (Ne.symm hjk)))))
  | lookupStale j => exact .inr (.inr (.inr (.inr recordsOf_lookupStale)))
  | purgeExpired => exact .inr (.inr (.inr (.inr rfl)))
  | clear => exact .inr (.inr (.inl ⟨rfl, rfl⟩))

end Steps

/-! ### Reachable caches -/

/-- The records of one key: at least one, at most sixteen, no RDATA twice. -/
structure WfRecords (vec : List CacheEntry) : Prop where
  nonempty : vec ≠ []
  capped : vec.length ≤ maxRecordsPerKey
  distinct : (vec.map fun e => e.record.rdata).Nodup

/-- Every key has well-formed records. -/
def Wf (c : DnsCache) : Prop := ∀ k vec, c.recordsOf k = some vec → WfRecords vec

theorem hasRdata_iff {vec : List CacheEntry} {rdata : Bytes} :
    hasRdata vec rdata = true ↔ ∃ e ∈ vec, e.record.rdata = rdata := by
  simp [hasRdata]

/-- The records of a key are kept as a window. -/
theorem addEntry_eq : addEntry = Window.add maxRecordsPerKey fun e => e.record.rdata := by
  funext vec entry
  unfold addEntry Window.add
  refine if_congr ?_ rfl rfl
  rw [hasRdata_iff, Window.any_key_iff, List.mem_map]

theorem WfRecords.addEntry {vec : List CacheEntry} (h : vec = [] ∨ WfRecords vec)
    (entry : CacheEntry) : WfRecords (addEntry vec entry) := by
  have hcapped : vec.length ≤ maxRecordsPerKey := by
    rcases h with rfl | h
    · exact Nat.zero_le _
    · exact h.capped
  have hdistinct : (vec.map fun e => e.record.rdata).Nodup := by
    rcases h with rfl | h
    · exact List.nodup_nil
    · exact h.distinct
  rw [addEntry_eq]
  exact ⟨Window.add_ne_nil _ _ _ _, Window.length_add_le (by decide) hcapped entry,
    Window.nodup_add hdistinct entry⟩

theorem WfRecords.freshOf {vec vec' : List CacheEntry} {now : Nat} (h : WfRecords vec)
    (hfresh : freshOf now vec = some vec') : WfRecords vec' := by
  simp only [DnsCache.freshOf] at hfresh
  split at hfresh
  · cases hfresh
  · rename_i hne
    cases hfresh
    have hsub := List.filter_sublist (p := fun e : CacheEntry => !e.isExpired now) (l := vec)
    exact ⟨by simpa using hne, Nat.le_trans hsub.length_le h.capped,
      h.distinct.sublist (hsub.map _)⟩

theorem Wf.apply {c : DnsCache} (h : c.Wf) (now : Nat) (op : CacheOp) : (c.apply now op).Wf := by
  intro k vec hvec
  rcases recordsOf_apply c now op k with ⟨ttl, rdata, rdlength, _, _, hadd⟩ | ⟨_, hfresh⟩ |
    ⟨_, hnone⟩ | ⟨_, _, _, _, _, _, hnone⟩ | hsame
  · rw [hadd] at hvec
    cases hvec
    refine WfRecords.addEntry ?_ _
    cases hk : c.recordsOf k with
    | none => exact .inl rfl
    | some old => exact .inr (h k old hk)
  · rw [hfresh] at hvec
    obtain ⟨old, hold, hvec⟩ := Option.bind_eq_some_iff.mp hvec
    exact (h k old hold).freshOf hvec
  · rw [hnone] at hvec
    cases hvec
  · rw [hnone] at hvec
    cases hvec
  · exact h k vec (hsame ▸ hvec)

/-- **Every cache reachable by calls is well formed.** -/
theorem Wf.runOps {c : DnsCache} (h : c.Wf) (hist : History) : (c.runOps hist).Wf := by
  induction hist generalizing c with
  | nil => exact h
  | cons op rest ih => exact ih (h.apply op.1 op.2)

/-- A cache as a process has it: created empty, then used. -/
def Reachable (c : DnsCache) : Prop :=
  ∃ hist, c = new.runOps hist ∨ ∃ max, c = (withMaxEntries max).runOps hist

theorem Reachable.wf {c : DnsCache} (h : c.Reachable) : c.Wf := by
  obtain ⟨hist, rfl | ⟨max, rfl⟩⟩ := h
  · exact Wf.runOps (fun k vec hvec => by cases hvec) hist
  · exact Wf.runOps (fun k vec hvec => by cases hvec) hist

end DnsCache

end FastDns.Resolver
