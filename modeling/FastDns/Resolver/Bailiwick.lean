/-
Which names a response can write into the shared caches.

The resolver has no bailiwick check: `cache_response` stores the records of
every section under their own owner names, whatever zone the responding servers
serve. What holds is weaker and is stated here over whole runs. A response
writes under the owners of its own records only, a referral or an answer writes
the owner of the first NS record or the name being resolved, and under any other
key the caches hold what they held before, or nothing once it was evicted
(`Event.Confined`, `resolveRecursive_writes_confined`).
-/

import FastDns.Resolver.Steps

namespace FastDns.Resolver

open FastDns.Lib FastDns.Dns FastDns.Dnssec

/-! ### Confined writes -/

/-- A key that was not written: it holds what it held, or was evicted. -/
def SameOrGone {α : Type} (before after : Option α) : Prop := after = before ∨ after = none

theorem SameOrGone.refl {α : Type} (x : Option α) : SameOrGone x x := .inl rfl

/-- Kept, or evicted on the way. -/
theorem SameOrGone.trans {α : Type} {x y z : Option α} (h : SameOrGone x y) (h' : SameOrGone y z) :
    SameOrGone x z := by
  rcases h' with rfl | hz
  · exact h
  · exact .inr hz

/-- The key of a record of the response that goes into the record cache. -/
def StoredKey (msg : Message) (k : CacheKey) : Prop :=
  ∃ r ∈ messageRecords msg, r.rtype ≠ 41 ∧ r.rtype ≠ 46 ∧ r.rtype ≠ 48 ∧ r.ttl ≠ 0 ∧
    k = (r.name, r.rtype, r.rclass)

/-- The owner of an address record of the response. -/
def StoredHost (msg : Message) (host : Bytes) : Prop :=
  ∃ r ∈ messageRecords msg, (r.rtype = 1 ∨ r.rtype = 28) ∧ host = r.name

/-- The write stays within what the response and the question name. -/
def Event.Confined : Event → Prop
  | .response _ msg before after =>
      (∀ k, ¬ StoredKey msg k →
        SameOrGone (before.cache.recordsOf k) (after.cache.recordsOf k) ∧
        ∀ now, SameOrGone (before.cache.lookup now k).1 (after.cache.lookup now k).1) ∧
      (∀ host, ¬ StoredHost msg host →
        SameOrGone (before.nsCache.get? host) (after.nsCache.get? host)) ∧
      after.delegationCache = before.delegationCache
  | .delegation _ name msg written before after =>
      WrittenZone name msg written ∧ after.cache = before.cache ∧ after.nsCache = before.nsCache ∧
      ∀ z, z ≠ written →
        SameOrGone (before.delegationCache.get? z) (after.delegationCache.get? z)

/-! ### One record, one response -/

/-- What a lookup returns depends on the records of the key alone. -/
theorem lookup_sameOrGone {c c' : DnsCache} {k : CacheKey} (now : Nat)
    (h : SameOrGone (c.recordsOf k) (c'.recordsOf k)) :
    SameOrGone (c.lookup now k).1 (c'.lookup now k).1 := by
  unfold DnsCache.recordsOf at h
  rcases h with hsame | hgone
  · refine .inl ?_
    unfold DnsCache.lookup
    rw [hsame]
    cases c.entries.get? k with
    | none => rfl
    | some vec =>
        dsimp only
        split <;> rfl
  · refine .inr ?_
    unfold DnsCache.lookup
    rw [hgone]

section Records

variable {enableIpv6 : Bool} {now : Nat} {c : Shared} {r : ResourceRecord}

theorem insertRecords_singleton (d : DnsCache) :
    d.insertRecords now [r] = d.insert now (r.name, r.rtype, r.rclass) r.ttl r.rdata r.rdlength :=
  rfl

/-- The record cache is one of three. -/
theorem storeRecord_nsCache (c : Shared) : (c.storeRecord now r).nsCache = c.nsCache := by
  unfold Shared.storeRecord
  split <;> rfl

theorem storeRecord_delegationCache (c : Shared) :
    (c.storeRecord now r).delegationCache = c.delegationCache := by
  unfold Shared.storeRecord
  split <;> rfl

/-- Storing an address touches the nameserver cache only. -/
theorem storeAddr_cache (c : Shared) : (c.storeAddr enableIpv6 r).cache = c.cache := by
  unfold Shared.storeAddr
  split
  · split
    · rfl
    · dsimp only
      split <;> rfl
  · rfl

/-- Delegations are not stored with addresses. -/
theorem storeAddr_delegationCache (c : Shared) :
    (c.storeAddr enableIpv6 r).delegationCache = c.delegationCache := by
  unfold Shared.storeAddr
  split
  · split
    · rfl
    · dsimp only
      split <;> rfl
  · rfl

/-- A record changes the records of its own key, if it is stored at all. -/
theorem cacheRecord_recordsOf {k : CacheKey}
    (hk : ¬ (r.rtype ≠ 41 ∧ r.rtype ≠ 46 ∧ r.rtype ≠ 48 ∧ r.ttl ≠ 0 ∧
      k = (r.name, r.rtype, r.rclass))) :
    SameOrGone (c.cache.recordsOf k) ((c.cacheRecord enableIpv6 now r).cache.recordsOf k) := by
  rw [Shared.cacheRecord, storeAddr_cache, Shared.storeRecord]
  split
  · rename_i htype
    dsimp only
    rw [insertRecords_singleton]
    by_cases httl : r.ttl = 0
    · rw [httl, DnsCache.recordsOf_insert_zero]
      exact .refl _
    · have hne : k ≠ (r.name, r.rtype, r.rclass) := by
        intro heq
        exact hk ⟨htype.1, htype.2.1, htype.2.2, httl, heq⟩
      exact DnsCache.recordsOf_insert_ne hne _ _ _
  · exact .refl _

/-- A record changes the addresses of its own owner, if it has an address. -/
theorem cacheRecord_nsCache {host : Bytes}
    (hhost : ¬ ((r.rtype = 1 ∨ r.rtype = 28) ∧ host = r.name)) :
    SameOrGone (c.nsCache.get? host) ((c.cacheRecord enableIpv6 now r).nsCache.get? host) := by
  rw [Shared.cacheRecord, ← storeRecord_nsCache c]
  generalize c.storeRecord now r = c
  unfold Shared.storeAddr
  split
  · rename_i htype
    have hne : host ≠ r.name := fun heq => hhost ⟨htype, heq⟩
    split
    · exact .refl _
    · dsimp only
      split
      · exact .inl Lru.get?_touch
      · exact SameOrGone.trans (.inl Lru.get?_touch) (Lru.get?_put_ne hne)
  · exact .refl _

theorem cacheRecord_delegationCache (c : Shared) :
    (c.cacheRecord enableIpv6 now r).delegationCache = c.delegationCache := by
  rw [Shared.cacheRecord, storeAddr_delegationCache, storeRecord_delegationCache]

end Records

/-- **A response writes under the owners of its own records only.** -/
theorem cacheResponse_confined (enableIpv6 : Bool) (now : Nat) (zone : Bytes) (msg : Message)
    (c : Shared) :
    Event.Confined (.response zone msg c (c.cacheResponse enableIpv6 now msg)) := by
  -- The induction is over the records still to be stored; `c` is the cache so far.
  have hrecords : ∀ (rs : List ResourceRecord) (c : Shared),
      (∀ k, (∀ r ∈ rs, ¬ (r.rtype ≠ 41 ∧ r.rtype ≠ 46 ∧ r.rtype ≠ 48 ∧ r.ttl ≠ 0 ∧
          k = (r.name, r.rtype, r.rclass))) →
        SameOrGone (c.cache.recordsOf k)
          ((rs.foldl (Shared.cacheRecord enableIpv6 now) c).cache.recordsOf k)) ∧
      (∀ host, (∀ r ∈ rs, ¬ ((r.rtype = 1 ∨ r.rtype = 28) ∧ host = r.name)) →
        SameOrGone (c.nsCache.get? host)
          ((rs.foldl (Shared.cacheRecord enableIpv6 now) c).nsCache.get? host)) ∧
      (rs.foldl (Shared.cacheRecord enableIpv6 now) c).delegationCache = c.delegationCache := by
    intro rs
    induction rs with
    | nil => exact fun c => ⟨fun _ _ => .refl _, fun _ _ => .refl _, rfl⟩
    | cons r rs ih =>
        intro c
        obtain ⟨hcache, hns, hdel⟩ := ih (c.cacheRecord enableIpv6 now r)
        refine ⟨?_, ?_, ?_⟩
        · intro k hk
          exact (cacheRecord_recordsOf (hk r List.mem_cons_self)).trans
            (hcache k fun r' hr' => hk r' (List.mem_cons_of_mem _ hr'))
        · intro host hhost
          exact (cacheRecord_nsCache (hhost r List.mem_cons_self)).trans
            (hns host fun r' hr' => hhost r' (List.mem_cons_of_mem _ hr'))
        · rw [List.foldl_cons, hdel, cacheRecord_delegationCache]
  obtain ⟨hcache, hns, hdel⟩ := hrecords (messageRecords msg) c
  refine ⟨?_, ?_, hdel⟩
  · intro k hk
    have hsame := hcache k fun r hr hstored => hk ⟨r, hr, hstored⟩
    exact ⟨hsame, fun now => lookup_sameOrGone now hsame⟩
  · intro host hhost
    exact hns host fun r hr hstored => hhost ⟨r, hr, hstored⟩

/-- A delegation writes the one zone it is for. -/
theorem cacheDelegation_confined (now : Nat) (zone name : Bytes) (msg : Message) (written : Bytes)
    (servers : List IpAddr) (c : Shared) (h : WrittenZone name msg written) :
    Event.Confined (.delegation zone name msg written c (c.cacheDelegation now written servers)) :=
  ⟨h, rfl, rfl, fun _ hz => Lru.get?_put_ne hz⟩

/-! ### Whole runs -/

/-- One step adds confined events only. -/
theorem Step.confined {s s' : St} (h : Step s s') :
    ∀ e ∈ s'.trace, e ∈ s.trace ∨ e.Confined := by
  cases h with
  | tick => exact fun e he => .inl he
  | deadline b => exact fun e he => .inl he
  | act op => exact fun e he => .inl he
  | response enableIpv6 now zone msg =>
      intro e he
      rcases List.mem_append.mp he with he | he
      · exact .inl he
      · rw [List.mem_singleton.mp he]
        exact .inr (cacheResponse_confined enableIpv6 now zone msg s.shared)
  | delegation now zone name msg written servers hzone =>
      intro e he
      rcases List.mem_append.mp he with he | he
      · exact .inl he
      · rw [List.mem_singleton.mp he]
        exact .inr (cacheDelegation_confined now zone name msg written servers s.shared hzone)

/-- The run lemma. -/
theorem Steps.confined {s s' : St} (h : Steps s s') :
    ∀ e ∈ s'.trace, e ∈ s.trace ∨ e.Confined := by
  induction h with
  | refl => exact fun e he => .inl he
  | tail _ hstep ih =>
      intro e he
      rcases hstep.confined e he with he | hconfined
      · exact ih e he
      · exact .inr hconfined

/-- The run ends in the state `s'`, with a result or with an error. A run that panics
or hangs has no last state; what it has written before is confined as well, since each
step is (`Step.confined`), and so is what its completed rounds have (`Reaches.confined`). -/
def EndsIn {α : Type} (m : Resolve α) (env : Env) (s s' : St) : Prop :=
  (∃ a, m env s = .ok (a, s')) ∨ ∃ stop, m env s = .err (stop, s')

/-- **In every run of `resolve_recursive`, against any upstream servers, every
write to the caches is confined** to the owners of the records of the response
and to the name being resolved. -/
theorem resolveRecursive_writes_confined (fuel : Nat) (cfg : Config) (name : Bytes)
    (rtype rclass : UInt16) (depth : Nat) (qnameMinimize : Bool) (env : Env) (s s' : St)
    (hrun : EndsIn (resolveRecursive fuel cfg name rtype rclass depth qnameMinimize) env s s') :
    ∀ e ∈ s'.trace, e ∈ s.trace ∨ e.Confined := by
  have hkeeps := resolveRecursive_steps fuel cfg name rtype rclass depth qnameMinimize env s
  rcases hrun with ⟨result, h⟩ | ⟨stop, h⟩
  · exact (hkeeps.1 result s' h).confined
  · exact (hkeeps.2 stop s' h).confined

/-! ### A run in which a foreign name is written -/

/-- An A record. -/
def aRecord (owner : Bytes) (ip : Ipv4Addr) : ResourceRecord :=
  ⟨owner, 1, 1, 3600, 4, ip.octets, some (.a ip)⟩

/-- An NS record. -/
def nsRecord (owner target : Bytes) : ResourceRecord :=
  ⟨owner, 2, 1, 3600, UInt16.ofNat target.length, target, some (.ns target)⟩

/-- `test` -/
def testZone : Bytes := [4, 0x74, 0x65, 0x73, 0x74, 0]

/-- `a.test` -/
def testHost : Bytes := [1, 0x61] ++ testZone

/-- `b.org` -/
def foreignHost : Bytes := [1, 0x62, 3, 0x6f, 0x72, 0x67, 0]

/-- The root refers to the servers of `test`, and these answer for `a.test` with
an address of `b.org` beside it. -/
def foreignGlueEnv : Env := .answering Crypto.rejectAll fun _ servers =>
  if servers = initialRootAddrs then
    some (replyWith 0 [] [nsRecord testZone testHost] [aRecord testHost ⟨192, 0, 2, 1⟩])
  else
    some (replyWith 0 [aRecord testHost ⟨192, 0, 2, 7⟩] []
      [aRecord foreignHost ⟨203, 0, 113, 6⟩])

/-- The resolution of `a.test` without DNSSEC. -/
def foreignGlueRun : Resolve Resolution := resolveRecursive 1 ⟨false, false⟩ testHost 1 1 0 true

theorem foreignGlueRun_writes_confined :
    ∃ s', EndsIn foreignGlueRun foreignGlueEnv (.initial 10) s' ∧ s'.trace ≠ [] ∧
      ∀ e ∈ s'.trace, e ∈ (St.initial 10).trace ∨ e.Confined := by
  have hends : (foreignGlueRun foreignGlueEnv (.initial 10)).toOption.map
      (fun x => x.2.trace.length) = some 4 := by decide +kernel
  obtain ⟨⟨result, s'⟩, hrun, hlength⟩ := Option.map_eq_some_iff.mp hends
  have hend : EndsIn foreignGlueRun foreignGlueEnv (.initial 10) s' :=
    .inl ⟨result, Outcome.toOption_eq_some.mp hrun⟩
  refine ⟨s', hend, ?_, resolveRecursive_writes_confined _ _ _ _ _ _ _ _ _ _ hend⟩
  intro hempty
  rw [hempty] at hlength
  cases hlength

/-- The event puts a record of `b.org` into both caches, on behalf of the servers
of a zone that `b.org` does not belong to. -/
def Event.writesForeignHost : Event → Bool
  | .response zone _ before after =>
      !decide (IsSubdomain foreignHost zone) &&
        (before.cache.lookup 0 (foreignHost, 1, 1)).1.isNone &&
        (after.cache.lookup 0 (foreignHost, 1, 1)).1.isSome &&
        (before.nsCache.get? foreignHost).isNone && (after.nsCache.get? foreignHost).isSome
  | .delegation _ _ _ _ _ _ => false

/-- **The servers of one zone write records of a name outside it.** -/
theorem foreign_record_is_cached :
    ∃ result s' zone msg before after,
      foreignGlueRun foreignGlueEnv (.initial 10) = .ok (result, s') ∧
      Event.response zone msg before after ∈ s'.trace ∧ ¬ IsSubdomain foreignHost zone ∧
      (before.cache.lookup 0 (foreignHost, 1, 1)).1 = none ∧
      (after.cache.lookup 0 (foreignHost, 1, 1)).1 ≠ none ∧
      before.nsCache.get? foreignHost = none ∧ after.nsCache.get? foreignHost ≠ none := by
  have hwrites : (foreignGlueRun foreignGlueEnv (.initial 10)).toOption.map
      (fun x => x.2.trace.any Event.writesForeignHost) = some true := by decide +kernel
  obtain ⟨⟨result, s'⟩, hrun, hany⟩ := Option.map_eq_some_iff.mp hwrites
  obtain ⟨e, he, hforeign⟩ := List.any_eq_true.mp hany
  cases e with
  | response zone msg before after =>
      simp only [Event.writesForeignHost, Bool.and_eq_true, Bool.not_eq_true',
        decide_eq_false_iff_not, Option.isNone_iff_eq_none, Option.isSome_iff_ne_none] at hforeign
      obtain ⟨⟨⟨⟨hzone, hmiss⟩, hhit⟩, hunknown⟩, hknown⟩ := hforeign
      exact ⟨result, s', zone, msg, before, after, Outcome.toOption_eq_some.mp hrun, he, hzone,
        hmiss, hhit, hunknown, hknown⟩
  | delegation zone name msg written before after => cases hforeign

end FastDns.Resolver
