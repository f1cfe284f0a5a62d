/-
Where the data in the shared caches come from (`src/resolver/recursive.rs`).

`World` is what the servers of the network may answer. A resolver starts with the
root hints; every other address it asks was in a record of an answer. `Learned`
closes the root hints under that step, for answers of learned servers to queries
the resolver can build. A record is `Given` if its data stand in such an answer.

`Told` says of a call on the shared caches that it stores given records and
learned addresses only, and `Sound` of the caches that they hold nothing else.
A task relies on the calls of the others being told, and guarantees the same of
its own.
-/

import FastDns.Resolver.Chain
import FastDns.Resolver.History

namespace FastDns.Resolver

open FastDns.Lib FastDns.Dns FastDns.Dnssec

/-! ### Answers of the network -/

/-- The message may answer the query when it is put to these servers. -/
abbrev World := Bytes → List IpAddr → Message → Prop

/-- The queries the resolver builds. -/
def IsQuery (query : Bytes) : Prop :=
  ∃ name rtype rclass id dnssecOk recursive,
    buildQueryStatic name rtype rclass id dnssecOk recursive = .ok query

namespace World

/-- The addresses a resolver can come to know. -/
inductive Learned (W : World) : IpAddr → Prop where
  | root {ip : IpAddr} : ip ∈ initialRootAddrs → Learned W ip
  | told {query : Bytes} {servers : List IpAddr} {msg : Message} {r : ResourceRecord}
      {ip : IpAddr} : IsQuery query → servers ≠ [] → (∀ server ∈ servers, Learned W server) →
      W query servers msg → r ∈ messageRecords msg → recordAddr true r = some ip → Learned W ip

/-- The message answers a query put to learned servers. -/
def Says (W : World) (msg : Message) : Prop :=
  ∃ query servers, IsQuery query ∧ servers ≠ [] ∧ (∀ server ∈ servers, W.Learned server) ∧
    W query servers msg

/-- The record is one of an answer, but for its TTL, and perhaps without the
parsed form of its RDATA. -/
def Gives (W : World) (r : ResourceRecord) : Prop :=
  ∃ msg, W.Says msg ∧ ∃ source ∈ messageRecords msg,
    r = { source with ttl := r.ttl, parsed := r.parsed } ∧
      (r.parsed = source.parsed ∨ r.parsed = none)

end World

section Answers

variable {W : World} {msg : Message} {r : ResourceRecord} {ip : IpAddr}

/-- The records of a message that is said are given. -/
theorem World.Says.gives (hsaid : W.Says msg) (hr : r ∈ messageRecords msg) : W.Gives r :=
  ⟨msg, hsaid, r, hr, rfl, .inl rfl⟩

/-- A given record may get another TTL. -/
theorem World.Gives.withTtl (h : W.Gives r) (ttl : UInt32) : W.Gives { r with ttl } := by
  obtain ⟨msg, hsaid, source, hmem, hdata, hparsed⟩ := h
  refine ⟨msg, hsaid, source, hmem, ?_, hparsed⟩
  rw [hdata]

/-- Turning IPv6 off only loses addresses. -/
theorem recordAddr_true {enableIpv6 : Bool} (h : recordAddr enableIpv6 r = some ip) :
    recordAddr true r = some ip := by
  unfold recordAddr at h ⊢
  split at h
  · exact h
  · cases enableIpv6 with
    | true => exact h
    | false => cases h
  · cases h

/-- The address in a given record is learned. -/
theorem World.Gives.learned (h : W.Gives r) {enableIpv6 : Bool}
    (haddr : recordAddr enableIpv6 r = some ip) : W.Learned ip := by
  obtain ⟨msg, ⟨query, servers, hquery, hne, hservers, hW⟩, source, hmem, _, hparsed⟩ := h
  rcases hparsed with hsame | hnone
  · refine .told hquery hne hservers hW hmem ?_
    rw [← recordAddr_true haddr, recordAddr, recordAddr, hsame]
  · rw [recordAddr, hnone] at haddr
    cases haddr

/-! The sections of a message. -/

theorem mem_answers (h : r ∈ msg.answers) : r ∈ messageRecords msg :=
  List.mem_append_left _ (List.mem_append_left _ h)

theorem mem_authorities (h : r ∈ msg.authorities) : r ∈ messageRecords msg :=
  List.mem_append_left _ (List.mem_append_right _ h)

theorem mem_additionals (h : r ∈ msg.additionals) : r ∈ messageRecords msg :=
  List.mem_append_right _ h

end Answers

/-! ### Told calls and sound caches -/

namespace World

variable (W : World)

/-- A record as it stands in an answer. -/
def Sends (r : ResourceRecord) : Prop := ∃ msg, W.Says msg ∧ r ∈ messageRecords msg

def AllLearned (ips : List IpAddr) : Prop := ∀ ip ∈ ips, W.Learned ip

/-- The call stores what was answered, if it stores anything. -/
def Told : SharedOp → Prop
  | .cache _ (.insert key ttl rdata rdlength) => ∃ source, W.Sends source ∧
      key = (source.name, source.rtype, source.rclass) ∧ ttl = source.ttl ∧
      rdata = source.rdata ∧ rdlength = source.rdlength
  | .nsPut _ ips => W.AllLearned ips
  | .delegationPut _ ips _ => W.AllLearned ips
  | .cache _ _ => True
  | .nsGet _ => True
  | .delegationGet _ => True

/-- The entry was given, and stands under its own key. -/
def Backed (k : CacheKey) (e : CacheEntry) : Prop :=
  W.Gives e.record ∧ (e.record.name, e.record.rtype, e.record.rclass) = k

/-- The caches hold given records and learned addresses. -/
structure Sound (c : Shared) : Prop where
  records : ∀ k vec, c.cache.recordsOf k = some vec → ∀ e ∈ vec, W.Backed k e
  stale : ∀ k vec, c.cache.staleOf k = some vec → ∀ e ∈ vec, W.Backed k e
  ns : ∀ name ips, c.nsCache.get? name = some ips → W.AllLearned ips
  delegation : ∀ zone ips expiry, c.delegationCache.get? zone = some (ips, expiry) →
    W.AllLearned ips

end World

section Soundness

variable {W : World} {c : Shared}

/-- The caches of a new resolver are empty. -/
theorem sound_new (cacheSize : Nat) : W.Sound (Shared.new cacheSize) where
  records k vec h := by cases h
  stale k vec h := by cases h
  ns name ips h := by cases h
  delegation zone ips expiry h := by cases h

/-- What is stored of a record that was sent is backed by it. -/
theorem backed_newEntry {source : ResourceRecord} (h : W.Sends source) (now : Nat) :
    W.Backed (source.name, source.rtype, source.rclass)
      (DnsCache.newEntry now (source.name, source.rtype, source.rclass) source.ttl source.rdata
        source.rdlength) := by
  obtain ⟨msg, hsaid, hmem⟩ := h
  exact ⟨⟨msg, hsaid, source, hmem, rfl, .inr rfl⟩, rfl⟩

/-- What one call leaves under a key was there, or is the record inserted. -/
theorem records_apply (hsound : W.Sound c) {now : Nat} {op : CacheOp}
    (htold : W.Told (.cache now op)) {k : CacheKey} {vec : List CacheEntry}
    (hvec : (c.cache.apply now op).recordsOf k = some vec) {e : CacheEntry} (he : e ∈ vec) :
    W.Backed k e := by
  rcases DnsCache.recordsOf_apply c.cache now op k with
    ⟨ttl, rdata, rdlength, rfl, _, hadd⟩ | ⟨_, hfresh⟩ | ⟨_, hnone⟩ |
    ⟨_, _, _, _, _, _, hnone⟩ | hsame
  · rw [hadd] at hvec
    cases hvec
    rcases DnsCache.mem_addEntry he with hold | rfl
    · cases hmain : c.cache.recordsOf k with
      | none =>
          rw [hmain] at hold
          cases hold
      | some main =>
          rw [hmain, Option.getD_some] at hold
          exact hsound.records k main hmain e hold
    · obtain ⟨source, hsends, rfl, rfl, rfl, rfl⟩ := htold
      exact backed_newEntry hsends now
  · rw [hfresh] at hvec
    obtain ⟨main, hmain, hvec⟩ := Option.bind_eq_some_iff.mp hvec
    exact hsound.records k main hmain e (DnsCache.mem_freshOf hvec he)
  · rw [hnone] at hvec
    cases hvec
  · rw [hnone] at hvec
    cases hvec
  · exact hsound.records k vec (hsame ▸ hvec) e he

/-- No call puts anything into the stale store that was not backed before. -/
theorem stale_apply (hsound : W.Sound c) {now : Nat} {op : CacheOp} {k : CacheKey}
    {vec : List CacheEntry} (hvec : (c.cache.apply now op).staleOf k = some vec) {e : CacheEntry}
    (he : e ∈ vec) : W.Backed k e := by
  rcases DnsCache.staleOf_apply c.cache now op k with
    ⟨main, _, hmain, _, hmoved⟩ | hsame | hnone
  · rw [hmoved] at hvec
    cases hvec
    exact hsound.records k main hmain e (List.mem_of_mem_filter he)
  · exact hsound.stale k vec (hsame ▸ hvec) e he
  · rw [hnone] at hvec
    cases hvec

/-- **A told call keeps the caches sound.** -/
theorem World.Sound.apply (hsound : W.Sound c) (op : SharedOp) (htold : W.Told op) :
    W.Sound (c.apply op) := by
  cases op with
  | cache now op =>
      exact ⟨fun k vec hvec e he => records_apply hsound htold hvec he,
        fun k vec hvec e he => stale_apply hsound hvec he, hsound.ns, hsound.delegation⟩
  | nsGet name =>
      refine ⟨hsound.records, hsound.stale, fun j ips hips => ?_, hsound.delegation⟩
      exact hsound.ns j ips (Lru.get?_touch.symm.trans hips)
  | nsPut name ips =>
      refine ⟨hsound.records, hsound.stale, fun j stored hstored => ?_, hsound.delegation⟩
      rcases Lru.get?_put hstored with rfl | hold
      · exact htold
      · exact hsound.ns j stored hold
  | delegationGet zone =>
      refine ⟨hsound.records, hsound.stale, hsound.ns, fun j ips expiry hips => ?_⟩
      exact hsound.delegation j ips expiry (Lru.get?_touch.symm.trans hips)
  | delegationPut zone ips expiry =>
      refine ⟨hsound.records, hsound.stale, hsound.ns, fun j stored expiry' hstored => ?_⟩
      rcases Lru.get?_put hstored with hsame | hold
      · cases hsame
        exact htold
      · exact hsound.delegation j stored expiry' hold

/-- Caches that told calls lead to. -/
inductive World.Reaches (W : World) (c : Shared) : Shared → Prop where
  | refl : W.Reaches c c
  | step {d : Shared} (op : SharedOp) : W.Reaches c d → W.Told op → W.Reaches c (d.apply op)

/-- Told calls, and more of them. -/
theorem World.Reaches.trans {d e : Shared} (h : W.Reaches c d) (h' : W.Reaches d e) :
    W.Reaches c e := by
  induction h' with
  | refl => exact h
  | step op _ htold ih => exact ih.step op htold

/-- **The run lemma**: told calls keep sound caches sound. -/
theorem World.Reaches.sound {d : Shared} (h : W.Reaches c d) (hsound : W.Sound c) : W.Sound d := by
  induction h with
  | refl => exact hsound
  | step op _ htold ih => exact ih.apply op htold

/-! The writes of `cache_response` and `cache_delegation` are such calls. -/

/-- A record that was sent is stored under its own name. -/
theorem reaches_storeRecord {r : ResourceRecord} (h : W.Sends r) (now : Nat) :
    W.Reaches c (c.storeRecord now r) := by
  unfold Shared.storeRecord
  split
  · exact .step (.cache now (.insert _ _ _ _)) .refl ⟨r, h, rfl, rfl, rfl, rfl⟩
  · exact .refl

/-- Its address is added to those of its name. -/
theorem reaches_storeAddr (hsound : W.Sound c) {r : ResourceRecord} (h : W.Sends r)
    (enableIpv6 : Bool) : W.Reaches c (c.storeAddr enableIpv6 r) := by
  unfold Shared.storeAddr
  split
  · split
    · exact .refl
    · rename_i ip hip
      dsimp only
      have hget : W.Reaches c (c.apply (.nsGet r.name)) := .step _ .refl trivial
      split
      · exact hget
      · refine .step (.nsPut r.name ((c.nsCache.get? r.name).getD [] ++ [ip])) hget ?_
        intro other hother
        rcases List.mem_append.mp hother with hold | hnew
        · cases hcached : c.nsCache.get? r.name with
          | none =>
              rw [hcached] at hold
              cases hold
          | some ips =>
              rw [hcached, Option.getD_some] at hold
              exact hsound.ns r.name ips hcached other hold
        · obtain ⟨msg, hsaid, hmem⟩ := h
          rw [List.mem_singleton.mp hnew]
          exact (hsaid.gives hmem).learned hip
  · exact .refl

/-- Both, in this order. -/
theorem reaches_cacheRecord (hsound : W.Sound c) {r : ResourceRecord} (h : W.Sends r)
    (enableIpv6 : Bool) (now : Nat) : W.Reaches c (c.cacheRecord enableIpv6 now r) := by
  have hfirst : W.Reaches c (c.storeRecord now r) := reaches_storeRecord h now
  exact hfirst.trans (reaches_storeAddr (hfirst.sound hsound) h enableIpv6)

/-- **Caching an answer stores nothing but what the answer gives.** -/
theorem reaches_cacheResponse (hsound : W.Sound c) {msg : Message} (hsaid : W.Says msg)
    (enableIpv6 : Bool) (now : Nat) : W.Reaches c (c.cacheResponse enableIpv6 now msg) := by
  have hall : ∀ r ∈ messageRecords msg, W.Sends r := fun r hr => ⟨msg, hsaid, hr⟩
  unfold Shared.cacheResponse
  generalize messageRecords msg = records at hall
  induction records generalizing c with
  | nil => exact .refl
  | cons r rest ih =>
      obtain ⟨hr, hrest⟩ := List.forall_mem_cons.mp hall
      have hfirst := reaches_cacheRecord hsound hr enableIpv6 now
      exact hfirst.trans (ih (hfirst.sound hsound) hrest)

/-- Looking for a delegation is a sequence of look-ups. -/
theorem reaches_findDelegationLoop (now fuel : Nat) (suffix : Bytes) (c : Shared) :
    W.Reaches c (findDelegationLoop now fuel suffix c).2 := by
  induction fuel generalizing suffix c with
  | zero => exact .refl
  | succ fuel ih =>
      cases suffix with
      | nil => exact .refl
      | cons first rest =>
          have hget : W.Reaches c (c.apply (.delegationGet (first :: rest))) :=
            .step _ .refl trivial
          unfold findDelegationLoop
          dsimp only
          split
          · exact .refl
          · split
            · split
              · exact hget
              · exact hget.trans (ih _ _)
            · exact hget.trans (ih _ _)

/-- The servers it finds are those of an entry. -/
theorem learned_findDelegationLoop (hsound : W.Sound c) (now fuel : Nat) (suffix : Bytes)
    {servers : List IpAddr} {zone : Bytes}
    (h : (findDelegationLoop now fuel suffix c).1 = some (servers, zone)) :
    W.AllLearned servers := by
  induction fuel generalizing suffix c with
  | zero => cases h
  | succ fuel ih =>
      cases suffix with
      | nil => cases h
      | cons first rest =>
          have hget : W.Sound (c.apply (.delegationGet (first :: rest))) :=
            hsound.apply (.delegationGet _) trivial
          unfold findDelegationLoop at h
          dsimp only at h
          split at h
          · cases h
          · split at h
            · rename_i ips expiry hcached
              split at h
              · cases h
                exact hsound.delegation _ _ _ hcached
              · exact ih hget _ h
            · exact ih hget _ h

/-! What the caches hand out. -/

/-- Entries that are backed give backed records. -/
theorem gives_lookup (hsound : W.Sound c) {now : Nat} {key : CacheKey}
    {records : List ResourceRecord} {ttl : UInt32}
    (h : (c.cache.lookup now key).1 = some (records, ttl)) : ∀ r ∈ records, W.Gives r := by
  obtain ⟨vec, hvec, fresh, rfl, _, rfl, _⟩ := DnsCache.lookup_eq_some h
  intro r hr
  obtain ⟨e, he, rfl⟩ := List.mem_map.mp hr
  exact (hsound.records key vec hvec e (List.mem_of_mem_filter he)).1.withTtl _

/-- Stale ones as well. -/
theorem gives_lookupStale (hsound : W.Sound c) {now : Nat} {key : CacheKey}
    {records : List ResourceRecord} (h : (c.cache.lookupStale now key).1 = some records) :
    ∀ r ∈ records, W.Gives r := by
  obtain ⟨vec, hvec, rfl⟩ := DnsCache.lookupStale_eq_some h
  intro r hr
  obtain ⟨e, he, rfl⟩ := List.mem_map.mp hr
  exact (hsound.stale key vec hvec e (List.mem_of_mem_filter he)).1.withTtl _

end Soundness

end FastDns.Resolver
