/-
Programs of the resolver that only learned servers have a say in
(`src/resolver/recursive.rs`).

A program is `Isolated` if it runs alike in two environments that differ in the
answers of servers it has not learned of, and makes told calls on the caches only.
What the other tasks do to the caches meanwhile has to be told as well.

There is one lemma for each function, in the order of the source: here the basic
steps and the queries of the DNSSEC code, which do not call the resolver again.
-/

import FastDns.Lib.Alike
import FastDns.Resolver.Provenance
import FastDns.Resolver.Recursive
import FastDns.Resolver.Steps

namespace FastDns.Resolver

open FastDns.Lib FastDns.Dns FastDns.Dnssec

/-! ### Errors without records -/

/-- The call does not end with NXDOMAIN. -/
def Plain {α : Type} (x : DnsResult α) : Prop := ∀ soa ad, x ≠ .err (.nxDomain soa ad)

/-- Sequencing adds no error of its own. -/
theorem plain_bind {α β : Type} {x : DnsResult α} {f : α → DnsResult β} (hx : Plain x)
    (hf : ∀ a, Plain (f a)) : Plain (x >>= f) := by
  intro soa ad h
  cases x with
  | ok a => exact hf a soa ad h
  | err e =>
      cases h
      exact hx soa ad rfl
  | panic => cases h
  | diverge => cases h

/-- Names, records and messages are encoded without a server being blamed: what can fail
is their length. -/
theorem plain_encodeLabels (labels : List Bytes) : Plain (encodeLabels labels) := by
  induction labels with
  | nil => exact fun _ _ h => by cases h
  | cons label rest ih =>
      unfold encodeLabels
      split
      · exact fun _ _ h => by cases h
      · split
        · exact fun _ _ h => by cases h
        · exact plain_bind ih fun _ _ _ h => by cases h

theorem plain_encodeDomainName (name : Bytes) : Plain (encodeDomainName name) := by
  unfold encodeDomainName
  dsimp only
  split
  · exact fun _ _ h => by cases h
  · exact plain_bind (plain_encodeLabels _) fun _ _ _ h => by cases h

theorem plain_writeItems {α : Type} {write : α → Nat → DnsResult Bytes}
    (hwrite : ∀ a n, Plain (write a n)) (capacity : Nat) (items : List α) (written : Bytes) :
    Plain (writeItems write capacity items written) := by
  induction items generalizing written with
  | nil => exact fun _ _ h => by cases h
  | cons item items ih => exact plain_bind (hwrite _ _) fun _ => ih _

theorem plain_question (q : Question) (room : Nat) : Plain (q.toBytes room) := by
  unfold Question.toBytes
  dsimp only
  split <;> exact fun _ _ h => by cases h

theorem plain_record (r : ResourceRecord) (room : Nat) : Plain (r.toBytes room) := by
  unfold ResourceRecord.toBytes
  dsimp only
  split
  · exact fun _ _ h => by cases h
  · split <;> exact fun _ _ h => by cases h

theorem plain_encodeMessage (m : Message) : Plain (encodeMessage m) := by
  refine plain_bind ?_ fun _ => plain_bind (plain_writeItems plain_question _ _ _) fun _ =>
    plain_bind (plain_writeItems plain_record _ _ _) fun _ =>
    plain_bind (plain_writeItems plain_record _ _ _) fun _ => plain_writeItems plain_record _ _ _
  unfold Header.toBytes
  split <;> exact fun _ _ h => by cases h

theorem plain_namePrefix (name : Bytes) (n : Nat) : Plain (namePrefix name n) := by
  intro soa ad h
  rcases namePrefix_ends name n with ⟨_, hok⟩ | hpanic
  · rw [hok] at h
    cases h
  · rw [hpanic] at h
    cases h

/-- So is the name of a round. -/
theorem plain_minimizeName (name : Bytes) (totalLabels : Nat) (s : Search) :
    Plain (minimizeName name totalLabels s) := by
  unfold minimizeName
  split
  · exact plain_namePrefix _ _
  · exact fun _ _ h => by cases h

/-! ### Environments -/

/-- Where the resolver may ask, it gets what the world answers, and the other
tasks do to the caches what they were told. -/
structure Env.Within (env : Env) (W : World) : Prop where
  replies : ∀ n query servers msg, IsQuery query → servers ≠ [] → W.AllLearned servers →
    env.reply n query servers = some msg → W query servers msg
  others : ∀ n, ∀ op ∈ env.others n, W.Told op

/-- The environments differ at most in what servers answer that are not learned. -/
structure World.Indistinct (W : World) (env env' : Env) : Prop where
  crypto : env.crypto = env'.crypto
  clock : env.clock = env'.clock
  wall : env.wall = env'.wall
  queryId : env.queryId = env'.queryId
  others : env.others = env'.others
  expires : env.expires = env'.expires
  reply : ∀ n query servers, IsQuery query → servers ≠ [] → W.AllLearned servers →
    env.reply n query servers = env'.reply n query servers

/-- The records of an NXDOMAIN error were given. -/
def World.Blames (W : World) (stop : Stop) : Prop :=
  ∀ soa ad, stop = .error (.nxDomain soa ad) → ∀ r ∈ soa, W.Gives r

/-- From caches that told calls have led to, the program runs alike in both
environments and leads to such caches. -/
abbrev Isolated (W : World) (c₀ : Shared) (env env' : Env) {α : Type} (m : Resolve α)
    (Q : α → Prop) : Prop :=
  Run.Alike env env' (fun s => W.Reaches c₀ s.shared) m Q W.Blames

/-- The records stand as they are in answers. -/
def World.Answered (W : World) (res : Resolution) : Prop := ∀ r ∈ res.records, W.Sends r

/-- What a caught call returned or raised. -/
def World.Tried (W : World) {α : Type} (Q : α → Prop) : Except DnsError α → Prop
  | .ok a => Q a
  | .error e => W.Blames (.error e)

/-- A record that is sent is given as it is. -/
theorem World.Sends.gives {W : World} {r : ResourceRecord} (h : W.Sends r) : W.Gives r := by
  obtain ⟨msg, hsaid, hmem⟩ := h
  exact hsaid.gives hmem

/-- The address in a record that is sent is learned. -/
theorem World.Sends.learned {W : World} {r : ResourceRecord} {ip : IpAddr} (h : W.Sends r)
    {enableIpv6 : Bool} (haddr : recordAddr enableIpv6 r = some ip) : W.Learned ip :=
  h.gives.learned haddr

theorem mem_ofType {rtype : UInt16} {records : List ResourceRecord} {r : ResourceRecord}
    (h : r ∈ ofType rtype records) : r ∈ records :=
  List.mem_of_mem_filter h

/-- Sound caches at the start, and two environments between which learned servers
make no difference. -/
structure Shielded (W : World) (c₀ : Shared) (env env' : Env) : Prop where
  sound : W.Sound c₀
  within : env.Within W
  indistinct : W.Indistinct env env'

/-! ### Learned addresses -/

section Learned

variable {W : World}

/-- A resolver knows the root servers from the start. -/
theorem learned_roots : W.AllLearned initialRootAddrs := fun _ hip => .root hip

theorem learned_append {ips ips' : List IpAddr} (h : W.AllLearned ips) (h' : W.AllLearned ips') :
    W.AllLearned (ips ++ ips') := by
  intro ip hip
  rcases List.mem_append.mp hip with hip | hip
  · exact h ip hip
  · exact h' ip hip

/-- An empty list is learned, too. -/
theorem learned_getD {found : Option (List IpAddr)}
    (h : ∀ ips, found = some ips → W.AllLearned ips) : W.AllLearned (found.getD []) := by
  cases found with
  | none => exact fun ip hip => absurd hip List.not_mem_nil
  | some ips => exact h ips rfl

/-- Addresses read from records of an answer. -/
theorem learned_filterMap {enableIpv6 : Bool} {records : List ResourceRecord}
    (h : ∀ r ∈ records, W.Sends r) :
    W.AllLearned (records.filterMap (recordAddr enableIpv6)) := by
  intro ip hip
  obtain ⟨r, hr, haddr⟩ := List.mem_filterMap.mp hip
  exact (h r hr).learned haddr

end Learned

section Functions

variable {W : World} {c₀ : Shared} {env env' : Env} {α β : Type}

/-! ### Basic steps -/

section Basic

variable {m : Resolve α} {Q : α → Prop}

/-- An error of the resolver itself is the same in both environments. -/
theorem isolated_fail {e : DnsError} (h : W.Blames (.error e)) :
    Isolated W c₀ env env' (fail e : Resolve α) Q :=
  Run.alike_throw h

/-- Only a denial brings records along, so only a denial can be blamed on a server. -/
theorem blames_of_ne {e : DnsError} (h : ∀ soa ad, e ≠ .nxDomain soa ad) :
    W.Blames (.error e) := by
  rintro soa ad ⟨⟩
  exact absurd rfl (h soa ad)

/-- A function without state cannot tell the environments apart. -/
theorem isolated_call {x : DnsResult α} (hx : Plain x) :
    Isolated W c₀ env env' (call x) fun a => x = .ok a := by
  refine Run.alike_lift fun e he => blames_of_ne fun soa ad hnx => ?_
  rw [hnx] at he
  exact hx soa ad he

/-- A caught error is kept with what is known of it. -/
theorem isolated_attempt (hm : Isolated W c₀ env env' m Q) :
    Isolated W c₀ env env' (attempt m) (W.Tried Q) := by
  refine Run.alike_handle (Run.alike_bind hm fun a ha => Run.alike_pure ha) fun stop hstop => ?_
  cases stop with
  | error e => exact Run.alike_pure hstop
  | cancelled => exact Run.alike_throw hstop

theorem isolated_setRefreshing (b : Bool) :
    Isolated W c₀ env env' (setRefreshing b) fun _ => True :=
  Run.alike_modify fun _ hs => hs

/-- The deadline is set and taken back in both environments alike. -/
theorem isolated_withDeadline (hm : Isolated W c₀ env env' m Q) :
    Isolated W c₀ env env' (withDeadline m) Q := by
  refine Run.alike_bind Run.alike_get fun s _ => ?_
  split
  · exact hm
  · refine Run.alike_bind (isolated_setRefreshing true) fun _ _ =>
      Run.alike_bind (Run.alike_handle hm fun stop hstop => ?_) fun a ha =>
      Run.alike_bind (isolated_setRefreshing false) fun _ _ => Run.alike_pure ha
    refine Run.alike_bind (isolated_setRefreshing false) fun _ _ => ?_
    cases stop with
    | error e => exact Run.alike_throw hstop
    | cancelled => exact isolated_fail (blames_of_ne fun _ _ h => by cases h)

/-- A task of its own changes nothing but the caches. -/
theorem isolated_spawn (hm : Isolated W c₀ env env' m Q) :
    Isolated W c₀ env env' (spawn m) fun _ => True := by
  constructor
  · intro s hs
    unfold spawn
    rw [hm.same { s with refreshing := false } hs]
  · intro s hs
    have hends := hm.ends { s with refreshing := false } hs
    unfold spawn
    cases hrun : m env { s with refreshing := false } with
    | ok a =>
        rw [hrun] at hends
        exact ⟨hends.1, trivial⟩
    | err e =>
        rw [hrun] at hends
        exact ⟨hends.1, trivial⟩
    | panic => exact ⟨hs, trivial⟩
    | diverge => trivial

/-- The readings have the same numbers in both environments. -/
theorem isolated_nextTick : Isolated W c₀ env env' nextTick fun _ => True :=
  Run.alike_bind Run.alike_get fun _ _ => Run.alike_bind (Run.alike_modify fun _ hs => hs)
    fun _ _ => Run.alike_pure trivial

/-- A call on the caches that stores what was told. -/
theorem isolated_act {op : SharedOp} (htold : W.Told op) :
    Isolated W c₀ env env' (act op) fun _ => True :=
  Run.alike_modify fun _ hs => hs.step op htold

/-- What other tasks do is the same in both, and told. -/
theorem isolated_actOthers {ops : List SharedOp} (htold : ∀ op ∈ ops, W.Told op) :
    Isolated W c₀ env env' (actOthers ops) fun _ => True := by
  induction ops with
  | nil => exact Run.alike_pure trivial
  | cons op ops ih =>
      obtain ⟨hop, hops⟩ := List.forall_mem_cons.mp htold
      exact Run.alike_bind (isolated_act hop) fun _ _ => ih hops

/-- What the resolver sends is a query that it has built. -/
theorem isQuery_of_build {name query : Bytes} {rtype rclass id : UInt16}
    {dnssecOk recursive : Bool}
    (h : buildQueryStatic name rtype rclass id dnssecOk recursive = .ok query) : IsQuery query :=
  ⟨name, rtype, rclass, id, dnssecOk, recursive, h⟩

/-- A program after a call that may fail, with its errors dropped. -/
theorem isolated_callOk {x : DnsResult α} {k : α → Resolve (Option β)} {Q : Option β → Prop}
    (hx : Plain x) (hk : ∀ a, x = .ok a → Isolated W c₀ env env' (k a) Q) (hnone : Q none) :
    Isolated W c₀ env env' (callOk x k) Q := by
  refine Run.alike_bind (isolated_attempt (isolated_call hx)) fun result hresult => ?_
  cases result with
  | ok a => exact hk a hresult
  | error e => exact Run.alike_pure hnone

end Basic

variable (h : Shielded W c₀ env env')

include h

/-- Time, and random numbers, are the same in both environments. -/
theorem isolated_readClock : Isolated W c₀ env env' readClock fun _ => True :=
  Run.alike_read (by rw [h.indistinct.clock]) <| Run.alike_bind isolated_nextTick fun _ _ =>
    Run.alike_pure trivial

theorem isolated_readWall : Isolated W c₀ env env' readWall fun _ => True :=
  Run.alike_read (by rw [h.indistinct.wall]) <| Run.alike_bind isolated_nextTick fun _ _ =>
    Run.alike_pure trivial

theorem isolated_randomId : Isolated W c₀ env env' randomId fun _ => True :=
  Run.alike_read (by rw [h.indistinct.queryId]) <| Run.alike_bind isolated_nextTick fun _ _ =>
    Run.alike_pure trivial

/-- **A query to learned servers**: the answer is one of the world. -/
theorem isolated_queryServersConcurrent {query : Bytes} {servers : List IpAddr}
    (hquery : IsQuery query) (hservers : W.AllLearned servers) :
    Isolated W c₀ env env' (queryServersConcurrent query servers)
      fun reply => ∀ msg, reply = some msg → W.Says msg := by
  unfold queryServersConcurrent
  split
  · exact Run.alike_pure (by rintro msg ⟨⟩)
  · rename_i hne
    have hne : servers ≠ [] := fun hnil => hne (by rw [hnil]; rfl)
    have hreply : ∀ n, env.reply n query servers = env'.reply n query servers :=
      fun n => h.indistinct.reply n query servers hquery hne hservers
    refine Run.alike_read ?_ (Run.alike_bind isolated_nextTick fun n _ =>
      Run.alike_bind Run.alike_get fun s _ =>
      Run.alike_bind (isolated_actOthers (h.within.others n)) fun _ _ => ?_)
    · simp only [h.indistinct.others, h.indistinct.expires, hreply]
    · split
      · exact Run.alike_throw (by rintro soa ad ⟨⟩)
      · exact Run.alike_pure fun msg hmsg =>
          ⟨query, servers, hquery, hne, hservers, h.within.replies n query servers msg hquery hne
            hservers hmsg⟩

/-- What the record cache returns was given, whoever has stored it. -/
theorem isolated_cacheLookup (key : CacheKey) :
    Isolated W c₀ env env' (cacheLookup key)
      fun found => ∀ records ttl, found = some (records, ttl) → ∀ r ∈ records, W.Gives r :=
  Run.alike_bind (isolated_readClock h) fun _ _ => Run.alike_bind Run.alike_get fun _ hs =>
    Run.alike_bind (isolated_act trivial) fun _ _ => Run.alike_pure fun _ _ hfound =>
      gives_lookup (hs.sound h.sound) hfound

/-- So was what the stale store returns, with another TTL. -/
theorem isolated_cacheLookupStale (key : CacheKey) :
    Isolated W c₀ env env' (cacheLookupStale key)
      fun found => ∀ records, found = some records → ∀ r ∈ records, W.Gives r :=
  Run.alike_bind (isolated_readClock h) fun _ _ => Run.alike_bind Run.alike_get fun _ hs =>
    Run.alike_bind (isolated_act trivial) fun _ _ => Run.alike_pure fun _ hfound =>
      gives_lookupStale (hs.sound h.sound) hfound

/-- Storing records that were sent is told. -/
theorem isolated_cacheInsertRecords {records : List ResourceRecord}
    (hrecords : ∀ r ∈ records, W.Sends r) :
    Isolated W c₀ env env' (cacheInsertRecords records) fun _ => True := by
  refine Run.alike_bind (isolated_readClock h) fun now _ => ?_
  induction records with
  | nil => exact Run.alike_pure trivial
  | cons r rest ih =>
      obtain ⟨hr, hrest⟩ := List.forall_mem_cons.mp hrecords
      exact Run.alike_bind (isolated_act ⟨r, hr, rfl, rfl, rfl, rfl⟩) fun _ _ => ih hrest

/-- The nameserver cache returns learned addresses. -/
theorem isolated_nsLookup (name : Bytes) :
    Isolated W c₀ env env' (nsLookup name) fun found => ∀ ips, found = some ips →
      W.AllLearned ips :=
  Run.alike_bind Run.alike_get fun _ hs => Run.alike_bind (isolated_act trivial) fun _ _ =>
    Run.alike_pure fun ips hfound => (hs.sound h.sound).ns name ips hfound

/-- So does the delegation cache. -/
theorem isolated_lookupDelegation (name : Bytes) :
    Isolated W c₀ env env' (lookupDelegation name)
      fun found => ∀ servers zone, found = some (servers, zone) → W.AllLearned servers :=
  Run.alike_bind (isolated_readClock h) fun now _ => Run.alike_bind Run.alike_get fun _ hs =>
    Run.alike_bind (Run.alike_modify fun _ hs => hs.trans (reaches_findDelegationLoop now _ name _))
      fun _ _ => Run.alike_pure fun _ _ hfound =>
        learned_findDelegationLoop (hs.sound h.sound) now _ name hfound

/-- A message of a learned server may be cached. -/
theorem isolated_cacheResponse (cfg : Config) (zone : Bytes) {msg : Message}
    (hsaid : W.Says msg) :
    Isolated W c₀ env env' (cacheResponse cfg zone msg) fun _ => True :=
  Run.alike_bind (isolated_readClock h) fun now _ => Run.alike_modify fun _ hs =>
    hs.trans (reaches_cacheResponse (hs.sound h.sound) hsaid cfg.enableIpv6 now)

/-- So may learned servers, for any zone. -/
theorem isolated_cacheDelegation (zone name written : Bytes) (msg : Message)
    {servers : List IpAddr} (hservers : W.AllLearned servers) :
    Isolated W c₀ env env' (cacheDelegation zone name msg written servers) fun _ => True :=
  Run.alike_bind (isolated_readClock h) fun now _ => Run.alike_modify fun _ hs =>
    hs.step (.delegationPut written servers (now + delegationCacheTtl)) hservers

/-! ### Queries of the DNSSEC code -/

/-- The query for signatures goes to learned servers, so they have answered it. -/
theorem isolated_queryRd1 (name : Bytes) (rtype rclass : UInt16) {servers : List IpAddr}
    (hservers : W.AllLearned servers) :
    Isolated W c₀ env env' (queryRd1 name rtype rclass servers)
      fun reply => ∀ msg, reply = some msg → W.Says msg := by
  unfold queryRd1
  split
  · exact Run.alike_pure (by rintro msg ⟨⟩)
  · exact Run.alike_bind (isolated_randomId h) fun id _ =>
      isolated_callOk (plain_encodeMessage _) (fun query hquery =>
        isolated_queryServersConcurrent h (isQuery_of_build hquery) hservers)
        (by rintro msg ⟨⟩)

/-- The keys and signatures that are looked up were given. -/
theorem isolated_resolveDnssec (name : Bytes) (rtype rclass : UInt16) :
    Isolated W c₀ env env' (resolveDnssec name rtype rclass)
      fun records => ∀ r ∈ records, W.Gives r := by
  refine Run.alike_bind (isolated_attempt (isolated_call (plain_encodeDomainName name)))
    fun result _ => ?_
  cases result with
  | error e => exact Run.alike_pure fun r hr => absurd hr List.not_mem_nil
  | ok encoded =>
      refine Run.alike_bind (isolated_cacheLookup h _) fun found hfound => ?_
      refine Run.alike_pure ?_
      cases found with
      | none => exact fun r hr => absurd hr List.not_mem_nil
      | some hit => exact hfound hit.1 hit.2 rfl

/-- The servers of NS records come from glue that was sent, or from the cache. -/
theorem isolated_collectNameservers {additionals : List ResourceRecord}
    (hadditionals : ∀ r ∈ additionals, W.Sends r) (nsRecords : List ResourceRecord)
    {ips : List IpAddr} (hips : W.AllLearned ips) :
    Isolated W c₀ env env' (collectNameservers additionals nsRecords ips) W.AllLearned := by
  induction nsRecords generalizing ips with
  | nil => exact Run.alike_pure hips
  | cons ns rest ih =>
      unfold collectNameservers
      split
      · rename_i nsName _
        have hglue : W.AllLearned (ips ++ glueFor nsName additionals) :=
          learned_append hips (learned_filterMap fun r hr =>
            hadditionals r (List.mem_of_mem_filter hr))
        dsimp only
        split
        · exact Run.alike_bind (isolated_nsLookup h nsName) fun cached hcached =>
            ih (learned_append hglue (learned_getD hcached))
        · exact ih hglue
      · exact ih hips

/-- Wherever they come from, the servers for a zone are learned. -/
theorem isolated_getNameserversForZone (zone : Bytes) :
    Isolated W c₀ env env' (getNameserversForZone zone) W.AllLearned := by
  have hnil : W.AllLearned [] := fun ip hip => absurd hip List.not_mem_nil
  refine Run.alike_bind (isolated_lookupDelegation h zone) fun found hfound => ?_
  cases found with
  | some hit => exact Run.alike_pure (hfound hit.1 hit.2 rfl)
  | none =>
      refine Run.alike_bind (isolated_nsLookup h zone) fun cached hcached => ?_
      cases cached with
      | some ips => exact Run.alike_pure (hcached ips rfl)
      | none =>
          dsimp only
          split
          · exact Run.alike_pure learned_roots
          · refine Run.alike_bind (isolated_randomId h) fun id _ => Run.alike_bind
              (isolated_attempt (isolated_call (plain_encodeMessage _))) fun result hresult => ?_
            cases result with
            | error e => exact Run.alike_pure hnil
            | ok query =>
                refine Run.alike_bind (isolated_queryServersConcurrent h
                  (isQuery_of_build hresult) learned_roots) fun reply hreply => ?_
                cases reply with
                | none => exact Run.alike_pure hnil
                | some msg =>
                    exact isolated_collectNameservers h (fun r hr =>
                      ⟨msg, hreply msg rfl, mem_additionals hr⟩) _ hnil

/-- A query to the servers of a zone asks learned servers only. -/
theorem isolated_queryZone (name : Bytes) (rtype : UInt16) (zone : Bytes)
    (k : Message → Option β) :
    Isolated W c₀ env env' (queryZone name rtype zone k) fun _ => True := by
  refine Run.alike_bind (isolated_randomId h) fun id _ =>
    isolated_callOk (plain_encodeMessage _) (fun query hquery =>
      Run.alike_bind (isolated_getNameserversForZone h zone)
        fun nameservers hlearned => ?_) trivial
  split
  · exact Run.alike_pure trivial
  · exact Run.alike_bind (isolated_queryServersConcurrent h (isQuery_of_build hquery)
      hlearned) fun _ _ => Run.alike_pure trivial

/-- By induction on the levels: each asks the servers of a zone. -/
theorem isolated_validateDnssecChain (remaining : Nat) (zoneName : Bytes)
    (dnskeys rrsigs : List ResourceRecord) (signerName : Bytes) :
    Isolated W c₀ env env' (validateDnssecChain remaining zoneName dnskeys rrsigs signerName)
      fun _ => True := by
  induction remaining generalizing zoneName dnskeys rrsigs signerName with
  | zero => exact Run.alike_pure trivial
  | succ remaining ih =>
      unfold validateDnssecChain
      split
      · exact Run.alike_pure trivial
      split
      · split <;> exact Run.alike_pure trivial
      · refine Run.alike_bind (isolated_queryZone h _ _ _ _) fun ds _ => ?_
        cases ds with
        | none => exact Run.alike_pure trivial
        | some found =>
            refine Run.alike_read (by simp only [h.indistinct.crypto]) ?_
            split
            · exact Run.alike_pure trivial
            · refine Run.alike_bind (isolated_readWall h) fun now _ => ?_
              split
              · exact Run.alike_pure trivial
              · refine Run.alike_bind (isolated_queryZone h _ _ _ _)
                  fun keys _ => ?_
                cases keys with
                | none =>
                    dsimp only
                    split <;> exact Run.alike_pure trivial
                | some keys => exact ih _ _ _ _

end Functions

end FastDns.Resolver
