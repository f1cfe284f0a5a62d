/-
Whole histories of the cache.

A call of the interface is one primitive operation or `insert_records`, which
is a run of insertions (`runCalls_eq_runOps`). Two facts link a state to the
history behind it. An entry of the main store is the one some insertion built
(`recordsOf_inserted`), and the list of a key in the stale store is what one
lookup of that key found expired (`staleOf_moved`). The representation
invariant of both stores and the soundness in time of both kinds of answer
follow from the two.
-/

import FastDns.Resolver.Cache
import Mathlib.Data.List.Induction

namespace FastDns.Resolver

open FastDns.Lib FastDns.Dns

/-! ### Calls of the interface -/

/-- The calls of `DnsCache`: a primitive operation, or a batch of insertions. -/
inductive CacheCall where
  | single (op : CacheOp)
  | insertRecords (records : List ResourceRecord)
deriving DecidableEq, Repr

/-- The insertion `insert_records` makes for a record. -/
def CacheOp.insertRecord (r : ResourceRecord) : CacheOp :=
  .insert (r.name, r.rtype, r.rclass) r.ttl r.rdata r.rdlength

/-- The primitive operations a call consists of. -/
def CacheCall.ops : CacheCall → List CacheOp
  | .single op => [op]
  | .insertRecords records => records.map CacheOp.insertRecord

/-- Calls with the times at which they are made. -/
abbrev Calls := List (Nat × CacheCall)

/-- The primitive operations of a sequence of calls. -/
def Calls.history (calls : Calls) : History :=
  calls.flatMap fun call => call.2.ops.map fun op => (call.1, op)

namespace DnsCache

/-- `new`, or `with_max_entries` of a size. -/
def create : Option Nat → DnsCache
  | none => new
  | some max => withMaxEntries max

/-- The cache after one call. -/
def perform (c : DnsCache) (now : Nat) : CacheCall → DnsCache
  | .single op => c.apply now op
  | .insertRecords records => c.insertRecords now records

/-- The cache after a sequence of calls. -/
def runCalls (c : DnsCache) : Calls → DnsCache
  | [] => c
  | (now, call) :: rest => runCalls (c.perform now call) rest

/-- Inserting records is inserting one after the other. -/
theorem insertRecords_eq_runOps (c : DnsCache) (now : Nat) (records : List ResourceRecord) :
    c.insertRecords now records =
      c.runOps (records.map fun r => (now, CacheOp.insertRecord r)) := by
  induction records generalizing c with
  | nil => rfl
  | cons r rest ih => exact ih _

theorem perform_eq_runOps (c : DnsCache) (now : Nat) (call : CacheCall) :
    c.perform now call = c.runOps (call.ops.map fun op => (now, op)) := by
  cases call with
  | single op => rfl
  | insertRecords records =>
      rw [perform, insertRecords_eq_runOps, CacheCall.ops, List.map_map]
      rfl

/-- Calls of the cache are the operations they are made of. -/
theorem runCalls_eq_runOps (c : DnsCache) (calls : Calls) :
    c.runCalls calls = c.runOps calls.history := by
  induction calls generalizing c with
  | nil => rfl
  | cons head rest ih =>
      obtain ⟨now, call⟩ := head
      have hhistory : Calls.history ((now, call) :: rest) =
          (call.ops.map fun op => (now, op)) ++ Calls.history rest := rfl
      rw [runCalls, ih, hhistory, runOps_append, perform_eq_runOps]

/-! ### One operation and the stale store -/

/-- The expired records of a key. -/
def staleOf (c : DnsCache) (k : CacheKey) : Option (List CacheEntry) := c.staleEntries.get? k

/-- What a lookup finds expired. -/
def expiredOf (now : Nat) (vec : List CacheEntry) : List CacheEntry :=
  vec.filter fun e => e.isExpired now

section Steps

variable (c : DnsCache) (now : Nat)

/-- Inserting leaves the stale store alone. -/
theorem insert_staleEntries (key : CacheKey) (ttl : UInt32) (rdata : Bytes) (rdlength : UInt16) :
    (c.insert now key ttl rdata rdlength).staleEntries = c.staleEntries := by
  unfold insert
  split
  · rfl
  · split
    · split <;> rfl
    · rfl

/-- A look-up moves the expired entries of its key, if there are any. -/
theorem lookup_staleEntries (j : CacheKey) :
    (c.lookup now j).2.staleEntries = c.staleEntries ∨
      ∃ vec, c.recordsOf j = some vec ∧ expiredOf now vec ≠ [] ∧
        (c.lookup now j).2.staleEntries = c.staleEntries.put j (expiredOf now vec) := by
  unfold lookup recordsOf
  cases h : c.entries.get? j with
  | none => exact .inl rfl
  | some vec =>
      by_cases hstale : (expiredOf now vec).isEmpty = true
      · refine .inl ?_
        simp only [expiredOf] at hstale
        simp only [hstale, if_true]
        split <;> rfl
      · refine .inr ⟨vec, rfl, fun hnil => hstale (List.isEmpty_iff.mpr hnil), ?_⟩
        simp only [expiredOf] at hstale ⊢
        simp only [hstale]
        split <;> rfl

/-- **What one call can do to the stale records of a key**: a lookup of the
key replaces them by what it finds expired; any other call leaves them or
drops them. -/
theorem staleOf_apply (op : CacheOp) (k : CacheKey) :
    (∃ vec, op = .lookup k ∧ c.recordsOf k = some vec ∧ expiredOf now vec ≠ [] ∧
      (c.apply now op).staleOf k = some (expiredOf now vec)) ∨
    (c.apply now op).staleOf k = c.staleOf k ∨ (c.apply now op).staleOf k = none := by
  unfold staleOf
  cases op with
  | insert j ttl rdata rdlength => exact .inr (.inl (by rw [apply, insert_staleEntries]))
  | lookup j =>
      rcases lookup_staleEntries c now j with hsame | ⟨vec, hvec, hne, hput⟩
      · exact .inr (.inl (by rw [apply, hsame]))
      · by_cases hjk : k = j
        · subst hjk
          exact .inl ⟨vec, rfl, hvec, hne, by rw [apply, hput, Lru.get?_put_self]⟩
        · refine .inr ?_
          rw [apply, hput]
          exact Lru.get?_put_ne hjk
  | lookupStale j =>
      refine .inr ?_
      rw [apply, lookupStale]
      cases c.staleEntries.get? j with
      | none => exact .inl (Eq.refl _)
      | some entries =>
          by_cases husable : (entries.filter (usableStale now)).isEmpty = true
          · simp only [husable, if_true]
            by_cases hjk : k = j
            · rw [hjk]
              exact .inr Lru.get?_pop_self
            · exact .inl ((Lru.get?_pop_ne hjk).trans Lru.get?_touch)
          · simp only [husable, Bool.false_eq_true, if_false]
            exact .inl Lru.get?_touch
  | purgeExpired => exact .inr (Lru.get?_foldl_pop _ _ k)
  | clear => exact .inr (.inr rfl)

theorem capacity_insert (key : CacheKey) (ttl : UInt32) (rdata : Bytes) (rdlength : UInt16) :
    (c.insert now key ttl rdata rdlength).entries.capacity = c.entries.capacity := by
  unfold insert
  split
  · rfl
  · dsimp only
    split
    · split
      · exact Lru.capacity_touch
      · exact Lru.capacity_put
    · exact Lru.capacity_put

theorem capacity_lookup (key : CacheKey) :
    (c.lookup now key).2.entries.capacity = c.entries.capacity := by
  unfold lookup
  split
  · rfl
  · dsimp only
    split <;> split <;> simp

theorem capacity_lookupStale (key : CacheKey) :
    (c.lookupStale now key).2.entries.capacity = c.entries.capacity := by
  unfold lookupStale
  split
  · rfl
  · dsimp only
    split <;> rfl

/-- No call changes the capacity. -/
theorem capacity_apply (op : CacheOp) :
    (c.apply now op).entries.capacity = c.entries.capacity := by
  cases op with
  | insert key ttl rdata rdlength => exact capacity_insert c now key ttl rdata rdlength
  | lookup key => exact capacity_lookup c now key
  | lookupStale key => exact capacity_lookupStale c now key
  | purgeExpired => rfl
  | clear => rfl

end Steps

/-! ### Where the entries come from -/

/-- The stale records are what a lookup of the key found expired at its time. -/
def MovedExpired (start : DnsCache) (hist : History) (k : CacheKey) (vec : List CacheEntry) :
    Prop :=
  ∃ before t after main, hist = before ++ (t, .lookup k) :: after ∧
    (start.runOps before).recordsOf k = some main ∧ vec = expiredOf t main

section Origins

variable {start : DnsCache} {k : CacheKey}

/-- A history with one more operation. -/
theorem runOps_concat (c : DnsCache) (hist : History) (now : Nat) (op : CacheOp) :
    c.runOps (hist ++ [(now, op)]) = (c.runOps hist).apply now op := runOps_append c hist _

/-- An entry is added to the list, or was there. -/
theorem mem_addEntry {vec : List CacheEntry} {entry e : CacheEntry} (h : e ∈ addEntry vec entry) :
    e ∈ vec ∨ e = entry := by
  rw [addEntry_eq] at h
  exact Window.mem_add h

/-- Purging only takes entries out. -/
theorem mem_freshOf {vec vec' : List CacheEntry} {now : Nat} {e : CacheEntry}
    (h : freshOf now vec = some vec') (he : e ∈ vec') : e ∈ vec := by
  simp only [freshOf] at h
  split at h
  · cases h
  · cases h
    exact List.mem_of_mem_filter he

/-- **Every entry of the main store was built by an insertion under its key.** -/
theorem recordsOf_inserted (hempty : ∀ k, start.recordsOf k = none) (hist : History)
    {vec : List CacheEntry} (hvec : (start.runOps hist).recordsOf k = some vec) {e : CacheEntry}
    (he : e ∈ vec) :
    ∃ s ttl rdata rdlength, (s, .insert k ttl rdata rdlength) ∈ hist ∧ ttl ≠ 0 ∧
      e = newEntry s k ttl rdata rdlength := by
  induction hist using List.reverseRecOn generalizing vec e with
  | nil =>
      rw [runOps, hempty k] at hvec
      cases hvec
  | append_singleton hist head ih =>
      obtain ⟨now, op⟩ := head
      have hold : ∀ {vec e}, (start.runOps hist).recordsOf k = some vec → e ∈ vec →
          ∃ s ttl rdata rdlength, (s, .insert k ttl rdata rdlength) ∈ hist ++ [(now, op)] ∧
            ttl ≠ 0 ∧ e = newEntry s k ttl rdata rdlength := by
        intro vec e hvec he
        obtain ⟨s, ttl, rdata, rdlength, hmem, hrest⟩ := ih hvec he
        exact ⟨s, ttl, rdata, rdlength, List.mem_append_left _ hmem, hrest⟩
      rw [runOps_concat] at hvec
      rcases recordsOf_apply (start.runOps hist) now op k with
        ⟨ttl, rdata, rdlength, rfl, httl, hadd⟩ | ⟨_, hfresh⟩ | ⟨_, hnone⟩ |
        ⟨_, _, _, _, _, _, hnone⟩ | hsame
      · rw [hadd] at hvec
        cases hvec
        rcases mem_addEntry he with he | rfl
        · cases hmain : (start.runOps hist).recordsOf k with
          | none =>
              rw [hmain] at he
              cases he
          | some main =>
              rw [hmain, Option.getD_some] at he
              exact hold hmain he
        · exact ⟨now, ttl, rdata, rdlength, by simp, httl, rfl⟩
      · rw [hfresh] at hvec
        obtain ⟨main, hmain, hvec⟩ := Option.bind_eq_some_iff.mp hvec
        exact hold hmain (mem_freshOf hvec he)
      · rw [hnone] at hvec
        cases hvec
      · rw [hnone] at hvec
        cases hvec
      · exact hold (hsame ▸ hvec) he

/-- **Every list of the stale store was moved there by a lookup of its key.** -/
theorem staleOf_moved (hempty : ∀ k, start.staleOf k = none) (hist : History)
    {vec : List CacheEntry} (hvec : (start.runOps hist).staleOf k = some vec) :
    vec ≠ [] ∧ MovedExpired start hist k vec := by
  induction hist using List.reverseRecOn with
  | nil =>
      rw [runOps, hempty k] at hvec
      cases hvec
  | append_singleton hist head ih =>
      obtain ⟨now, op⟩ := head
      rw [runOps_concat] at hvec
      rcases staleOf_apply (start.runOps hist) now op k with
        ⟨main, rfl, hmain, hne, hmoved⟩ | hsame | hnone
      · rw [hmoved] at hvec
        cases hvec
        exact ⟨hne, hist, now, [], main, rfl, hmain, rfl⟩
      · rw [hsame] at hvec
        obtain ⟨hne, before, t, after, main, rfl, hmain, hvec⟩ := ih hvec
        exact ⟨hne, before, t, after ++ [(now, op)], main, by simp, hmain, hvec⟩
      · rw [hnone] at hvec
        cases hvec

theorem capacity_runOps (hist : History) :
    (start.runOps hist).entries.capacity = start.entries.capacity := by
  induction hist generalizing start with
  | nil => rfl
  | cons head rest ih => exact ih.trans (capacity_apply start head.1 head.2)

end Origins

/-! ### The representation invariant -/

/-- A new cache is empty. -/
theorem recordsOf_create (max : Option Nat) (k : CacheKey) : (create max).recordsOf k = none := by
  cases max <;> rfl

theorem staleOf_create (max : Option Nat) (k : CacheKey) : (create max).staleOf k = none := by
  cases max <;> rfl

/-- So it is well formed. -/
theorem wf_create (max : Option Nat) : (create max).Wf := by
  intro k vec hvec
  rw [recordsOf_create] at hvec
  cases hvec

/-- The number of keys a cache may hold. -/
def capacityOf : Option Nat → Nat
  | none => maxCacheEntries
  | some max => Nat.max max 1

/-- An entry that may stand under a key. -/
structure OfKey (k : CacheKey) (e : CacheEntry) : Prop where
  key : (e.record.name, e.record.rtype, e.record.rclass) = k
  ttl_pos : 1 ≤ e.record.ttl
  ttl_le : e.record.ttl ≤ 86400

/-- The representation invariant of the cache `c` that was created as `start`
and has seen the history. -/
structure Represents (start : DnsCache) (hist : History) (c : DnsCache) (capacity : Nat) :
    Prop where
  records : ∀ k vec, c.recordsOf k = some vec → WfRecords vec ∧ ∀ e ∈ vec, OfKey k e
  keys : c.entries.len ≤ capacity
  stale : ∀ k vec, c.staleOf k = some vec →
    vec ≠ [] ∧ vec.length ≤ maxRecordsPerKey ∧ (∀ e ∈ vec, OfKey k e) ∧
      MovedExpired start hist k vec

/-- The TTL is capped to a day, and is not zero. -/
theorem ttl_bounds {ttl : UInt32} (httl : ttl ≠ 0) :
    1 ≤ min ttl 86400 ∧ min ttl 86400 ≤ 86400 := by
  change 1 ≤ (if ttl ≤ 86400 then ttl else 86400) ∧ (if ttl ≤ 86400 then ttl else 86400) ≤ 86400
  split
  · rename_i hle
    refine ⟨?_, hle⟩
    rw [UInt32.le_iff_toNat_le]
    exact Nat.pos_of_ne_zero fun hzero => httl (UInt32.toNat_inj.mp hzero)
  · decide

/-- A new entry has the key it is inserted under. -/
theorem ofKey_newEntry (s : Nat) (k : CacheKey) {ttl : UInt32} (httl : ttl ≠ 0) (rdata : Bytes)
    (rdlength : UInt16) : OfKey k (newEntry s k ttl rdata rdlength) :=
  ⟨rfl, (ttl_bounds httl).1, (ttl_bounds httl).2⟩

/-- So have all entries, after any history. -/
theorem ofKey_runOps (max : Option Nat) (hist : History) {k : CacheKey} {vec : List CacheEntry}
    (hvec : ((create max).runOps hist).recordsOf k = some vec) : ∀ e ∈ vec, OfKey k e := by
  intro e he
  obtain ⟨s, ttl, rdata, rdlength, _, httl, rfl⟩ :=
    recordsOf_inserted (recordsOf_create max) hist hvec he
  exact ofKey_newEntry s k httl rdata rdlength

/-- **Every sequence of calls keeps the representation invariant.** -/
theorem represents_runCalls (max : Option Nat) (calls : Calls) :
    Represents (create max) calls.history ((create max).runCalls calls) (capacityOf max) := by
  rw [runCalls_eq_runOps]
  refine ⟨?_, ?_, ?_⟩
  · intro k vec hvec
    exact ⟨(wf_create max).runOps calls.history k vec hvec, ofKey_runOps max _ hvec⟩
  · have hcapacity : ((create max).runOps calls.history).entries.capacity = capacityOf max := by
      rw [capacity_runOps]
      cases max <;> rfl
    rw [← hcapacity]
    exact Lru.bounded _
  · intro k vec hvec
    obtain ⟨hne, hmoved⟩ := staleOf_moved (staleOf_create max) calls.history hvec
    obtain ⟨before, t, after, main, hsplit, hmain, rfl⟩ := id hmoved
    -- The list is a part of one the main store had, which was well formed.
    refine ⟨hne, ?_, ?_, hmoved⟩
    · have hcapped := ((wf_create max).runOps before k main hmain).capped
      exact Nat.le_trans (List.length_filter_le _ _) hcapped
    · intro e he
      exact ofKey_runOps max before hmain e (List.mem_of_mem_filter he)

/-! ### The answers, in time -/

/-- The record was passed to `insert` under the key at time `s`, with this TTL. -/
structure InsertedAt (hist : History) (k : CacheKey) (s : Nat) (ttl : UInt32)
    (r : ResourceRecord) : Prop where
  call : (s, .insert k ttl r.rdata r.rdlength) ∈ hist
  key : (r.name, r.rtype, r.rclass) = k

/-- The TTL is the least one of the records. -/
def LeastTtl (records : List ResourceRecord) (ttl : UInt32) : Prop :=
  (∃ r ∈ records, r.ttl = ttl) ∧ ∀ r ∈ records, ttl ≤ r.ttl

section Answers

variable {c : DnsCache} {t : Nat} {k : CacheKey}

/-- What a look-up returns, and from which entries. -/
theorem lookup_eq_some {records : List ResourceRecord} {least : UInt32}
    (h : (c.lookup t k).1 = some (records, least)) :
    ∃ vec, c.recordsOf k = some vec ∧
      ∃ fresh, fresh = vec.filter (fun e => !e.isExpired t) ∧ fresh ≠ [] ∧
        records = withRemainingTtl t fresh ∧ least = minTtl t fresh := by
  unfold lookup at h
  unfold recordsOf
  cases hvec : c.entries.get? k with
  | none =>
      rw [hvec] at h
      cases h
  | some vec =>
      rw [hvec] at h
      dsimp only at h
      refine ⟨vec, rfl, _, rfl, ?_⟩
      split at h
      · cases h
      · rename_i hne
        cases h
        exact ⟨fun hnil => hne (List.isEmpty_iff.mpr hnil), rfl, rfl⟩

/-- What a stale look-up returns. -/
theorem lookupStale_eq_some {records : List ResourceRecord}
    (h : (c.lookupStale t k).1 = some records) :
    ∃ vec, c.staleOf k = some vec ∧
      records = (vec.filter (usableStale t)).map fun e => { e.record with ttl := 0 } := by
  unfold lookupStale at h
  unfold staleOf
  cases hvec : c.staleEntries.get? k with
  | none =>
      rw [hvec] at h
      cases h
  | some vec =>
      rw [hvec] at h
      dsimp only at h
      split at h
      · cases h
      · cases h
        exact ⟨vec, rfl, rfl⟩

theorem min_le_of (a b : UInt32) : min a b ≤ a ∧ min a b ≤ b ∧ (min a b = a ∨ min a b = b) := by
  by_cases hab : a ≤ b
  · have hmin : min a b = a := if_pos hab
    rw [hmin]
    exact ⟨UInt32.le_refl a, hab, .inl rfl⟩
  · have hmin : min a b = b := if_neg hab
    rw [hmin]
    rw [UInt32.le_iff_toNat_le] at hab
    exact ⟨UInt32.le_iff_toNat_le.mpr (Nat.le_of_not_le hab), UInt32.le_refl b, .inr rfl⟩

/-- The fold of `lookup` computes the least of its start and the TTLs. -/
theorem foldl_min_spec (vec : List CacheEntry) (m : UInt32) :
    let least := vec.foldl (fun m e => min m (e.ttlRemaining t)) m
    least ≤ m ∧ (∀ e ∈ vec, least ≤ e.ttlRemaining t) ∧
      (least = m ∨ ∃ e ∈ vec, e.ttlRemaining t = least) := by
  induction vec generalizing m with
  | nil => exact ⟨UInt32.le_refl m, by simp, .inl rfl⟩
  | cons e rest ih =>
      obtain ⟨hstart, hall, hfound⟩ := ih (min m (e.ttlRemaining t))
      obtain ⟨hleft, hright, hone⟩ := min_le_of m (e.ttlRemaining t)
      refine ⟨UInt32.le_trans hstart hleft, ?_, ?_⟩
      · intro e' he'
        rcases List.mem_cons.mp he' with rfl | he'
        · exact UInt32.le_trans hstart hright
        · exact hall e' he'
      · rcases hfound with hstop | ⟨e', he', hleast⟩
        · rcases hone with hm | he
          · exact .inl (hstop.trans hm)
          · exact .inr ⟨e, List.mem_cons_self, (hstop.trans he).symm⟩
        · exact .inr ⟨e', List.mem_cons_of_mem _ he', hleast⟩

/-- The TTL that is reported is the least one. -/
theorem leastTtl_minTtl {fresh : List CacheEntry} (hne : fresh ≠ []) :
    LeastTtl (withRemainingTtl t fresh) (minTtl t fresh) := by
  obtain ⟨_, hall, hfound⟩ := foldl_min_spec (t := t) fresh 0xffffffff
  have hle : ∀ r ∈ withRemainingTtl t fresh, minTtl t fresh ≤ r.ttl := by
    intro r hr
    obtain ⟨e, he, rfl⟩ := List.mem_map.mp hr
    exact hall e he
  refine ⟨?_, hle⟩
  rcases hfound with hmax | ⟨e, he, hleast⟩
  · -- All TTLs are `u32::MAX`, so the first one is as good as any.
    obtain ⟨e, rest, rfl⟩ := List.exists_cons_of_ne_nil hne
    refine ⟨{ e.record with ttl := e.ttlRemaining t }, List.mem_cons_self, ?_⟩
    have hge := hall e List.mem_cons_self
    rw [hmax] at hge
    have hle : e.ttlRemaining t ≤ 0xffffffff := by
      rw [UInt32.le_iff_toNat_le]
      exact Nat.le_of_lt_succ (UInt32.toNat_lt _)
    exact UInt32.le_antisymm (by rw [minTtl, hmax]; exact hle) (by rw [minTtl, hmax]; exact hge)
  · exact ⟨_, List.mem_map.mpr ⟨e, he, rfl⟩, hleast⟩

/-- What is left of a TTL is a number of whole seconds, and no more than was given. -/
theorem ttlRemaining_newEntry {s : Nat} (hs : s ≤ t) (ttl : UInt32) (rdata : Bytes)
    (rdlength : UInt16) :
    ((newEntry s k ttl rdata rdlength).ttlRemaining t).toNat = (expiry s ttl - t) / nanos 1 ∧
      (newEntry s k ttl rdata rdlength).ttlRemaining t ≤ ttl := by
  have hleft : (expiry s ttl - t) / nanos 1 ≤ (min ttl 86400).toNat := by
    refine Nat.div_le_of_le_mul ?_
    unfold expiry nanos
    omega
  have hclamp : (min ttl 86400).toNat ≤ ttl.toNat :=
    UInt32.le_iff_toNat_le.mp (min_le_of ttl 86400).1
  have hsmall : (expiry s ttl - t) / nanos 1 < 2 ^ 32 :=
    Nat.lt_of_le_of_lt (Nat.le_trans hleft hclamp) (UInt32.toNat_lt ttl)
  have hvalue : ((newEntry s k ttl rdata rdlength).ttlRemaining t).toNat =
      (expiry s ttl - t) / nanos 1 := UInt32.toNat_ofNat_of_lt hsmall
  refine ⟨hvalue, ?_⟩
  rw [UInt32.le_iff_toNat_le, hvalue]
  exact Nat.le_trans hleft hclamp

end Answers

/-- In an ordered history nothing happens after its end. -/
theorem time_le_of_mem {calls : Calls} {t s : Nat} {op : CacheOp}
    (hordered : (calls.map Prod.fst ++ [t]).Pairwise (· ≤ ·)) (hmem : (s, op) ∈ calls.history) :
    s ≤ t := by
  obtain ⟨⟨now, call⟩, hcall, hop⟩ := List.mem_flatMap.mp hmem
  obtain ⟨_, _, hpair⟩ := List.mem_map.mp hop
  cases hpair
  exact (List.pairwise_append.mp hordered).2.2 now (List.mem_map.mpr ⟨_, hcall, rfl⟩) t
    (List.mem_singleton_self t)

/-- **The answers of the cache are sound in time.** A record that `lookup`
returns was inserted and is not expired, with the whole seconds it has left; one
that `lookup_stale` returns was inserted and has been expired for less than six
hours. -/
theorem answers_sound (max : Option Nat) (calls : Calls) (t : Nat) (k : CacheKey)
    (hordered : (calls.map Prod.fst ++ [t]).Pairwise (· ≤ ·)) :
    (∀ records least, (((create max).runCalls calls).lookup t k).1 = some (records, least) →
      (∀ r ∈ records, ∃ s ttl, InsertedAt calls.history k s ttl r ∧ s ≤ t ∧ t < expiry s ttl ∧
        r.ttl.toNat = (expiry s ttl - t) / nanos 1 ∧ r.ttl ≤ ttl) ∧
      LeastTtl records least) ∧
    (∀ records, (((create max).runCalls calls).lookupStale t k).1 = some records →
      ∀ r ∈ records, ∃ s ttl, InsertedAt calls.history k s ttl r ∧ expiry s ttl ≤ t ∧
        t < expiry s ttl + staleMaxAge ∧ r.ttl = 0) := by
  rw [runCalls_eq_runOps]
  refine ⟨?_, ?_⟩
  · intro records least hlookup
    obtain ⟨vec, hvec, fresh, hfresh, hne, rfl, rfl⟩ := lookup_eq_some hlookup
    refine ⟨?_, leastTtl_minTtl hne⟩
    intro r hr
    obtain ⟨e, he, rfl⟩ := List.mem_map.mp hr
    obtain ⟨he, hlive⟩ := List.mem_filter.mp (hfresh ▸ he)
    obtain ⟨s, ttl, rdata, rdlength, hmem, _, rfl⟩ :=
      recordsOf_inserted (recordsOf_create max) _ hvec he
    have hs := time_le_of_mem hordered hmem
    obtain ⟨hvalue, hle⟩ := ttlRemaining_newEntry (k := k) hs ttl rdata rdlength
    refine ⟨s, ttl, ⟨hmem, rfl⟩, hs, ?_, hvalue, hle⟩
    simpa [CacheEntry.isExpired, newEntry] using hlive
  · intro records hlookup r hr
    obtain ⟨vec, hvec, rfl⟩ := lookupStale_eq_some hlookup
    obtain ⟨e, he, rfl⟩ := List.mem_map.mp hr
    obtain ⟨he, husable⟩ := List.mem_filter.mp he
    obtain ⟨_, before, t', after, main, hsplit, hmain, rfl⟩ :=
      staleOf_moved (staleOf_create max) _ hvec
    obtain ⟨he, hexpired⟩ := List.mem_filter.mp he
    obtain ⟨s, ttl, rdata, rdlength, hmem, _, rfl⟩ :=
      recordsOf_inserted (recordsOf_create max) before hmain he
    -- It had expired when it was moved, and no call was made after `t`.
    have hcall : (t', CacheOp.lookup k) ∈ calls.history := by
      rw [hsplit]
      simp
    have hmoved : t' ≤ t := time_le_of_mem hordered hcall
    have hpast : expiry s ttl ≤ t' := by simpa [CacheEntry.isExpired, newEntry] using hexpired
    have hage : t - expiry s ttl < staleMaxAge := of_decide_eq_true husable
    refine ⟨s, ttl, ⟨?_, rfl⟩, Nat.le_trans hpast hmoved, by omega, rfl⟩
    rw [hsplit]
    exact List.mem_append_left _ hmem

/-- An A record of `a.test` with a TTL of one minute. -/
def minuteRecord : ResourceRecord where
  name := [1, 0x61, 4, 0x74, 0x65, 0x73, 0x74, 0]
  rtype := 1
  rclass := 1
  ttl := 60
  rdlength := 4
  rdata := [192, 0, 2, 1]
  parsed := none

/-- The record is returned after half a minute with half its TTL, and after a
lookup that came too late it is returned as a stale one. -/
theorem answers_sound_minuteRecord :
    (∃ records least,
      (((create none).runCalls [(0, .insertRecords [minuteRecord])]).lookup (nanos 30)
        (minuteRecord.name, 1, 1)).1 = some (records, least) ∧ records ≠ [] ∧
        LeastTtl records least) ∧
    ∃ records,
      (((create none).runCalls [(0, .insertRecords [minuteRecord]),
        (nanos 70, .single (.lookup (minuteRecord.name, 1, 1)))]).lookupStale (nanos 80)
        (minuteRecord.name, 1, 1)).1 = some records ∧ records ≠ [] ∧ ∀ r ∈ records, r.ttl = 0 := by
  have hlookup : (((create none).runCalls [(0, .insertRecords [minuteRecord])]).lookup (nanos 30)
      (minuteRecord.name, 1, 1)).1 = some ([{ minuteRecord with ttl := 30 }], 30) := by
    decide +kernel
  have hstale : (((create none).runCalls [(0, .insertRecords [minuteRecord]),
      (nanos 70, .single (.lookup (minuteRecord.name, 1, 1)))]).lookupStale (nanos 80)
      (minuteRecord.name, 1, 1)).1 = some [{ minuteRecord with ttl := 0 }] := by
    decide +kernel
  refine ⟨⟨_, _, hlookup, by simp, ?_⟩, _, hstale, by simp, ?_⟩
  · exact ((answers_sound none _ _ _ (by decide)).1 _ _ hlookup).2
  · intro r hr
    obtain ⟨s, ttl, _, _, _, hzero⟩ := (answers_sound none _ _ _ (by decide)).2 _ hstale r hr
    exact hzero

end DnsCache

end FastDns.Resolver
