/-
How much the shared caches hold (`src/resolver/cache.rs`,
`src/resolver/recursive.rs`).

All caches of the resolver have a capacity, which no call changes, and every key
of the record cache and of the stale store has at most sixteen records. So the
number of records is bounded in every state that any tasks can bring about
(`resolution_bounded`).

The bounds are on names. The addresses kept for one nameserver are not bounded:
answers add them one by one, and nothing removes one (`nsAddresses_accumulate`).
-/

import FastDns.Lib.Alike
import FastDns.Resolver.History
import FastDns.Resolver.Steps
import Mathlib.Algebra.Order.BigOperators.Group.List
import Mathlib.Algebra.Order.Ring.Nat

namespace FastDns.Resolver

open FastDns.Lib FastDns.Dns

/-! ### Sums over an LRU map -/

/-- The number of items under all keys of a map of lists. -/
def totalItems {κ ν : Type} (l : Lru κ (List ν)) : Nat := (l.toList.map fun e => e.2.length).sum

theorem length_toList {κ ν : Type} (l : Lru κ ν) : l.toList.length = l.len :=
  List.length_map _

/-- So many items under each key make so many in all. -/
theorem totalItems_le {κ ν : Type} [DecidableEq κ] {l : Lru κ (List ν)} {most : Nat}
    (h : ∀ k items, l.get? k = some items → items.length ≤ most) :
    totalItems l ≤ l.capacity * most := by
  have hsum : totalItems l ≤ (l.toList.map fun e => e.2.length).length • most := by
    refine List.sum_le_card_nsmul _ _ fun n hn => ?_
    obtain ⟨⟨k, items⟩, hmem, rfl⟩ := List.mem_map.mp hn
    exact h k items (Lru.get?_of_mem_toList hmem)
  rw [List.length_map, length_toList, Nat.nsmul_eq_mul] at hsum
  exact Nat.le_trans hsum (Nat.mul_le_mul_right most l.bounded)

/-! ### The stale store -/

namespace DnsCache

section Stale

variable (c : DnsCache) (now : Nat)

theorem capacity_foldl_pop {κ ν : Type} [DecidableEq κ] (keys : List (κ × ν)) (l : Lru κ ν) :
    (keys.foldl (fun s e => s.pop e.1) l).capacity = l.capacity := by
  induction keys generalizing l with
  | nil => rfl
  | cons e rest ih => exact ih (l.pop e.1)

/-- No call changes the size of the stale store. -/
theorem staleCapacity_apply (op : CacheOp) :
    (c.apply now op).staleEntries.capacity = c.staleEntries.capacity := by
  cases op with
  | insert key ttl rdata rdlength => rw [apply, insert_staleEntries]
  | lookup key =>
      rcases lookup_staleEntries c now key with hsame | ⟨_, _, _, hput⟩
      · rw [apply, hsame]
      · rw [apply, hput, Lru.capacity_put]
  | lookupStale key =>
      rw [apply, lookupStale]
      cases c.staleEntries.get? key with
      | none => exact Eq.refl _
      | some entries =>
          by_cases husable : (entries.filter (usableStale now)).isEmpty = true
          · simp only [husable, if_true]
            exact Lru.capacity_touch
          · simp only [husable, Bool.false_eq_true, if_false]
            exact Lru.capacity_touch
  | purgeExpired => exact capacity_foldl_pop _ _
  | clear => rfl

end Stale

/-- Every key of the stale store has well-formed records. -/
def StaleWf (c : DnsCache) : Prop := ∀ k vec, c.staleOf k = some vec → WfRecords vec

/-- Each call keeps the stale lists not empty, capped and without duplicates. -/
theorem StaleWf.apply {c : DnsCache} (h : c.StaleWf) (hwf : c.Wf) (now : Nat) (op : CacheOp) :
    (c.apply now op).StaleWf := by
  intro k vec hvec
  rcases staleOf_apply c now op k with ⟨main, _, hmain, hne, hmoved⟩ | hsame | hnone
  · rw [hmoved] at hvec
    cases hvec
    have hmainWf := hwf k main hmain
    have hsub : (expiredOf now main).Sublist main := List.filter_sublist
    exact ⟨hne, Nat.le_trans hsub.length_le hmainWf.capped,
      hmainWf.distinct.sublist (hsub.map _)⟩
  · exact h k vec (hsame ▸ hvec)
  · rw [hnone] at hvec
    cases hvec

end DnsCache

/-! ### The invariant -/

/-- What no call on the shared caches of a resolver of this size changes. -/
structure Shared.Capped (cacheSize : Nat) (c : Shared) : Prop where
  entries : c.cache.entries.capacity = Nat.max cacheSize 1
  stale : c.cache.staleEntries.capacity = Nat.max 1000 (Nat.min staleMaxEntries (cacheSize / 5))
  ns : c.nsCache.capacity = nsCacheMax
  delegation : c.delegationCache.capacity = delegationCacheMax
  wf : c.cache.Wf
  staleWf : c.cache.StaleWf

/-- The bounds that follow for the contents. -/
structure Shared.Bounded (cacheSize : Nat) (c : Shared) : Prop where
  records : totalItems c.cache.entries ≤ Nat.max cacheSize 1 * maxRecordsPerKey
  stale : totalItems c.cache.staleEntries ≤
    Nat.max 1000 (Nat.min staleMaxEntries (cacheSize / 5)) * maxRecordsPerKey
  names : c.nsCache.len ≤ nsCacheMax
  delegations : c.delegationCache.len ≤ delegationCacheMax
  distinct : ∀ k vec, c.cache.recordsOf k = some vec ∨ c.cache.staleOf k = some vec →
    (vec.map fun e => e.record.rdata).Nodup

section Capped

variable {cacheSize : Nat} {c : Shared}

/-- New caches are empty. -/
theorem capped_new (cacheSize : Nat) : (Shared.new cacheSize).Capped cacheSize where
  entries := rfl
  stale := rfl
  ns := rfl
  delegation := rfl
  wf k vec h := by cases h
  staleWf k vec h := by cases h

/-- Capped caches have bounded contents. -/
theorem Shared.Capped.bounded (h : c.Capped cacheSize) : c.Bounded cacheSize where
  records := h.entries ▸ totalItems_le fun k vec hvec => (h.wf k vec hvec).capped
  stale := h.stale ▸ totalItems_le fun k vec hvec => (h.staleWf k vec hvec).capped
  names := h.ns ▸ c.nsCache.bounded
  delegations := h.delegation ▸ c.delegationCache.bounded
  distinct k vec hvec := by
    rcases hvec with hvec | hvec
    · exact (h.wf k vec hvec).distinct
    · exact (h.staleWf k vec hvec).distinct

/-- **The step lemma**: each call keeps the caps. -/
theorem Shared.Capped.apply (h : c.Capped cacheSize) (op : SharedOp) :
    (c.apply op).Capped cacheSize := by
  cases op with
  | cache now op =>
      exact ⟨(DnsCache.capacity_apply c.cache now op).trans h.entries,
        (DnsCache.staleCapacity_apply c.cache now op).trans h.stale, h.ns, h.delegation,
        h.wf.apply now op, h.staleWf.apply h.wf now op⟩
  | nsGet name => exact { h with ns := Lru.capacity_touch.trans h.ns }
  | nsPut name ips => exact { h with ns := Lru.capacity_put.trans h.ns }
  | delegationGet zone => exact { h with delegation := Lru.capacity_touch.trans h.delegation }
  | delegationPut zone ips expiry =>
      exact { h with delegation := Lru.capacity_put.trans h.delegation }

/-- Caching a record is at most three such calls. -/
theorem Shared.Capped.cacheRecord (h : c.Capped cacheSize) (enableIpv6 : Bool) (now : Nat)
    (r : ResourceRecord) : (c.cacheRecord enableIpv6 now r).Capped cacheSize := by
  have hfirst : (c.storeRecord now r).Capped cacheSize := by
    unfold Shared.storeRecord
    split
    · exact h.apply (.cache now (.insert (r.name, r.rtype, r.rclass) r.ttl r.rdata r.rdlength))
    · exact h
  unfold Shared.cacheRecord Shared.storeAddr
  split
  · split
    · exact hfirst
    · dsimp only
      split
      · exact hfirst.apply (.nsGet r.name)
      · exact (hfirst.apply (.nsGet r.name)).apply (.nsPut r.name _)
  · exact hfirst

/-- A response, by induction on its records. -/
theorem Shared.Capped.cacheResponse (h : c.Capped cacheSize) (enableIpv6 : Bool) (now : Nat)
    (msg : Message) : (c.cacheResponse enableIpv6 now msg).Capped cacheSize := by
  unfold Shared.cacheResponse
  induction messageRecords msg generalizing c with
  | nil => exact h
  | cons r rest ih => exact ih (h.cacheRecord enableIpv6 now r)

/-- **A step of any task keeps the capacities.** -/
theorem capped_step {s s' : St} (hstep : Step s s') (h : s.shared.Capped cacheSize) :
    s'.shared.Capped cacheSize := by
  cases hstep with
  | tick => exact h
  | deadline => exact h
  | act op => exact h.apply op
  | response enableIpv6 now zone msg => exact h.cacheResponse enableIpv6 now msg
  | delegation now zone name msg written servers _ => exact h.apply (.delegationPut written _ _)

/-- **The run lemma**, over the steps of any resolution. -/
theorem capped_steps {s s' : St} (hsteps : Steps s s') (h : s.shared.Capped cacheSize) :
    s'.shared.Capped cacheSize := by
  induction hsteps with
  | refl => exact h
  | tail _ hstep ih => exact capped_step hstep ih

end Capped

/-- **The caches stay within their bounds** in every state that a resolver can get
into: from its start, after any calls of any tasks, and at the end of any
resolution from there, also one that fails. -/
theorem resolution_bounded (cacheSize : Nat) (fuel : Nat) (cfg : Config) (name : Bytes)
    (rtype rclass : UInt16) (env : Env) (s : St) (hreach : Steps (St.initial cacheSize) s) :
    s.shared.Bounded cacheSize ∧
      (resolveWithAd (resolveRecursive fuel) cfg name rtype rclass env s).Holds
        (fun result => result.2.shared.Bounded cacheSize)
        fun stop => stop.2.shared.Bounded cacheSize := by
  have hbounded : ∀ {s' : St}, Steps s s' → s'.shared.Bounded cacheSize := fun hsteps =>
    (capped_steps (hreach.trans hsteps) (capped_new cacheSize)).bounded
  refine ⟨hbounded .refl, ?_⟩
  obtain ⟨hok, herr⟩ := resolveWithAd_steps fuel cfg name rtype rclass env s
  cases hrun : resolveWithAd (resolveRecursive fuel) cfg name rtype rclass env s with
  | ok result => exact hbounded (hok result.1 result.2 hrun)
  | err stop => exact hbounded (herr stop.1 stop.2 hrun)
  | panic => trivial
  | diverge => trivial

/-- A resolver for ten records, once it has had an answer for `a.test`. -/
def storedState : St := (St.initial 10).cacheResponse true 0 [0] (replyWith 0 [sampleAnswer] [] [])

theorem storedState_steps : Steps (St.initial 10) storedState :=
  .single (.response _ true 0 [0] _)

/-- It holds a record and an address, and asks servers that do not answer for another
name. -/
theorem resolution_bounded_stored :
    totalItems storedState.shared.cache.entries = 1 ∧ storedState.shared.nsCache.len = 1 ∧
      storedState.shared.Bounded 10 ∧
      (resolveWithAd (resolveRecursive 1) ⟨false, false⟩ [1, 0x61, 0] 1 1
        (Env.answering Crypto.rejectAll fun _ _ => none) storedState).Holds
        (fun result => result.2.shared.Bounded 10) fun stop => stop.2.shared.Bounded 10 :=
  ⟨rfl, rfl, resolution_bounded 10 1 ⟨false, false⟩ [1, 0x61, 0] 1 1 _ storedState
    storedState_steps⟩

/-! ### Addresses of one nameserver -/

/-- The address a record adds to the nameserver cache. -/
def cachedAddr (enableIpv6 : Bool) (r : ResourceRecord) : Option IpAddr :=
  if r.rtype = 1 ∨ r.rtype = 28 then recordAddr enableIpv6 r else none

/-- An address is appended unless it is there. -/
def addAddr (ips : List IpAddr) (ip : IpAddr) : List IpAddr :=
  if ips.contains ip then ips else ips ++ [ip]

/-- An address is added to the others. -/
theorem mem_addAddr {ips : List IpAddr} {ip other : IpAddr} :
    other ∈ addAddr ips ip ↔ other ∈ ips ∨ other = ip := by
  unfold addAddr
  split
  · rename_i hmem
    have hmem : ip ∈ ips := List.contains_iff_mem.mp hmem
    refine ⟨.inl, ?_⟩
    rintro (hold | rfl)
    · exact hold
    · exact hmem
  · rw [List.mem_append, List.mem_singleton]

/-- It is added once. -/
theorem nodup_addAddr {ips : List IpAddr} (h : ips.Nodup) (ip : IpAddr) :
    (addAddr ips ip).Nodup := by
  unfold addAddr
  split
  · exact h
  · rename_i hnew
    refine List.Nodup.append h (List.nodup_singleton ip) ?_
    intro other hother hsame
    rw [List.mem_singleton.mp hsame] at hother
    exact hnew (List.contains_iff_mem.mpr hother)

/-- The addresses kept for a name, none if it is not there. -/
def Shared.addrsOf (c : Shared) (name : Bytes) : List IpAddr := (c.nsCache.get? name).getD []

section Addresses

variable {enableIpv6 : Bool} {now : Nat} {c : Shared} {name : Bytes}

/-- A record about the name adds its address, if it has one. -/
theorem addrsOf_cacheRecord {r : ResourceRecord} (hname : r.name = name) :
    (c.cacheRecord enableIpv6 now r).addrsOf name =
      (cachedAddr enableIpv6 r).elim (c.addrsOf name) (addAddr (c.addrsOf name)) := by
  have hstored : (c.storeRecord now r).nsCache = c.nsCache := by
    unfold Shared.storeRecord
    split <;> rfl
  subst hname
  unfold Shared.cacheRecord Shared.storeAddr cachedAddr
  by_cases htype : r.rtype = 1 ∨ r.rtype = 28
  · rw [if_pos htype, if_pos htype, hstored]
    cases recordAddr enableIpv6 r with
    | none => exact congrArg (fun l : Lru Bytes (List IpAddr) => (l.get? r.name).getD []) hstored
    | some ip =>
        dsimp only [Option.elim]
        unfold addAddr
        split
        · rename_i hmem
          rw [if_pos (show (c.addrsOf r.name).contains ip = true from hmem)]
          unfold Shared.addrsOf
          rw [Lru.get?_touch]
        · rename_i hnew
          rw [if_neg (show ¬ (c.addrsOf r.name).contains ip = true from hnew)]
          unfold Shared.addrsOf
          rw [Lru.get?_put_self]
          rfl
  · rw [if_neg htype, if_neg htype]
    exact congrArg (fun l : Lru Bytes (List IpAddr) => (l.get? r.name).getD []) hstored

/-- The addresses that records give. -/
def givenAddrs (enableIpv6 : Bool) (records : List ResourceRecord) : List IpAddr :=
  records.filterMap (cachedAddr enableIpv6)

/-- The addresses of a name after a response whose records are all of that name. -/
theorem addrsOf_cacheResponse {msg : Message} (hname : ∀ r ∈ messageRecords msg, r.name = name) :
    (c.cacheResponse enableIpv6 now msg).addrsOf name =
      (givenAddrs enableIpv6 (messageRecords msg)).foldl addAddr (c.addrsOf name) := by
  unfold Shared.cacheResponse givenAddrs
  generalize messageRecords msg = records at hname
  induction records generalizing c with
  | nil => rfl
  | cons r rest ih =>
      obtain ⟨hr, hrest⟩ := List.forall_mem_cons.mp hname
      rw [List.foldl_cons, ih hrest, addrsOf_cacheRecord hr]
      cases haddr : cachedAddr enableIpv6 r with
      | none => rw [List.filterMap_cons_none haddr]; rfl
      | some ip => rw [List.filterMap_cons_some haddr]; rfl

theorem mem_foldl_addAddr {given ips : List IpAddr} {ip : IpAddr} :
    ip ∈ given.foldl addAddr ips ↔ ip ∈ ips ∨ ip ∈ given := by
  induction given generalizing ips with
  | nil => simp
  | cons head rest ih => rw [List.foldl_cons, ih, mem_addAddr, List.mem_cons, or_assoc]

theorem nodup_foldl_addAddr {given ips : List IpAddr} (h : ips.Nodup) :
    (given.foldl addAddr ips).Nodup := by
  induction given generalizing ips with
  | nil => exact h
  | cons head rest ih => exact ih (nodup_addAddr h head)

end Addresses

/-- The caches after responses, each at its time. -/
def Shared.cacheResponses (enableIpv6 : Bool) (c : Shared) (responses : List (Nat × Message)) :
    Shared :=
  responses.foldl (fun c response => c.cacheResponse enableIpv6 response.1 response.2) c

/-- **The addresses of a nameserver accumulate**: after any number of responses about
it, at any times, the cache keeps exactly all addresses that were there or were ever
given. No bound and no TTL removes one, and no address is there twice if none was
before. -/
theorem nsAddresses_accumulate (enableIpv6 : Bool) (c : Shared) (name : Bytes)
    (responses : List (Nat × Message))
    (habout : ∀ response ∈ responses, ∀ r ∈ messageRecords response.2, r.name = name) :
    (∀ ip, ip ∈ (c.cacheResponses enableIpv6 responses).addrsOf name ↔
      ip ∈ c.addrsOf name ∨ ∃ response ∈ responses,
        ip ∈ givenAddrs enableIpv6 (messageRecords response.2)) ∧
    ((c.addrsOf name).Nodup → ((c.cacheResponses enableIpv6 responses).addrsOf name).Nodup) := by
  induction responses generalizing c with
  | nil => simp [Shared.cacheResponses]
  | cons response rest ih =>
      obtain ⟨hfirst, hrest⟩ := List.forall_mem_cons.mp habout
      have hstep : (c.cacheResponse enableIpv6 response.1 response.2).addrsOf name =
          (givenAddrs enableIpv6 (messageRecords response.2)).foldl addAddr (c.addrsOf name) :=
        addrsOf_cacheResponse hfirst
      obtain ⟨hmem, hnodup⟩ := ih (c.cacheResponse enableIpv6 response.1 response.2) hrest
      refine ⟨fun ip => ?_, fun h => hnodup ?_⟩
      · rw [Shared.cacheResponses, List.foldl_cons]
        refine (hmem ip).trans ?_
        rw [hstep, mem_foldl_addAddr, or_assoc]
        simp
      · rw [hstep]
        exact nodup_foldl_addAddr h

/-- After two answers for `a.test` with the same address it is there once. -/
theorem nsAddresses_accumulate_sample :
    let answer := replyWith 0 [sampleAnswer] [] []
    let c := (Shared.new 10).cacheResponses true [(0, answer), (nanos 120, answer)]
    (∀ ip, ip ∈ c.addrsOf sampleAnswer.name ↔ ip = .v4 ⟨192, 0, 2, 1⟩) ∧
      (c.addrsOf sampleAnswer.name).Nodup := by
  intro answer c
  have habout : ∀ response ∈ [(0, answer), (nanos 120, answer)],
      ∀ r ∈ messageRecords response.2, r.name = sampleAnswer.name := by
    intro response hresponse r hr
    rcases List.mem_pair.mp hresponse with rfl | rfl <;> rw [List.mem_singleton.mp hr]
  obtain ⟨hmem, hnodup⟩ := nsAddresses_accumulate true (Shared.new 10) sampleAnswer.name _ habout
  have hgiven : givenAddrs true (messageRecords answer) = [.v4 ⟨192, 0, 2, 1⟩] := rfl
  refine ⟨fun ip => (hmem ip).trans ?_, hnodup List.nodup_nil⟩
  have hold : (Shared.new 10).addrsOf sampleAnswer.name = [] := rfl
  simp [hold, hgiven]

end FastDns.Resolver
