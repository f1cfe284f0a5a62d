/-
Rounds of the loop of `resolve_recursive`.

What every round keeps, the whole loop keeps (`iterate_returns`). How a call
ends when all servers send the same reply is decided in its first round. The
first query is minimised to a single label, so it can be built for every name
whose labels are complete, however long the name is, and what the call does then
depends on the reply alone: `iteration_ends` reduces the end of the round to the
end of `handleReply`. An invariant of the shared caches goes along.
-/

import FastDns.Resolver.Recursive

namespace FastDns.Resolver

open FastDns.Lib FastDns.Dns FastDns.Dnssec

/-! ### The loop -/

section Rotate

variable (s : Search)

theorem rotate_adBit : s.rotate.adBit = s.adBit := by
  unfold Search.rotate
  split <;> rfl

theorem rotate_revealedLabels : s.rotate.revealedLabels = s.revealedLabels := by
  unfold Search.rotate
  split <;> rfl

theorem rotate_zone : s.rotate.zone = s.zone := by
  unfold Search.rotate
  split <;> rfl

end Rotate

/-- The rule for the loop: a search that satisfies `Inv` leads to another one or
to a result with `Q`. -/
theorem iterate_returns {env : Env} {self : Recursive} {cfg : Config} {name : Bytes}
    {rtype rclass : UInt16} {depth totalLabels : Nat} {Inv : Search → Prop} {Q : Resolution → Prop}
    (hround : ∀ s, Inv s → Run.Returns env
      (iteration self cfg name rtype rclass depth totalLabels s) (Sum.elim Inv Q))
    (rounds : Nat) {s : Search} (hs : Inv s) :
    Run.Returns env (iterate self cfg name rtype rclass depth totalLabels rounds s) Q := by
  induction rounds generalizing s with
  | zero => exact Run.returns_throw
  | succ rounds ih =>
      refine Run.returns_bind (hround s hs) ?_
      intro round hnext
      cases round with
      | inl s => exact ih hnext
      | inr res => exact Run.returns_pure hnext

/-- What a call returns was computed, and the state is as before. -/
theorem call_eq_ok {env : Env} {α : Type} {x : DnsResult α} {a : α} {s s' : St}
    (h : call x env s = .ok (a, s')) : x = .ok a ∧ s' = s := by
  cases x with
  | ok b =>
      cases h
      exact ⟨rfl, rfl⟩
  | err e => cases h
  | panic => cases h
  | diverge => cases h

theorem call_returns {env : Env} {α : Type} {x : DnsResult α} :
    Run.Returns env (call x) fun a => x = .ok a := fun _ _ _ hrun => (call_eq_ok hrun).1

/-- A reply is one that the world has for the query. -/
theorem queryServersConcurrent_answers {env : Env} (query : Bytes) (servers : List IpAddr) :
    Run.Returns env (queryServersConcurrent query servers)
      fun reply => ∀ msg, reply = some msg → ∃ n, env.reply n query servers = some msg := by
  unfold queryServersConcurrent
  split
  · exact Run.returns_pure (by rintro msg ⟨⟩)
  · refine Run.returns_bind Run.returns_read ?_
    rintro _ rfl
    refine Run.returns_bind' fun n => Run.returns_bind' fun s => Run.returns_bind' fun _ => ?_
    split
    · exact Run.returns_throw
    · exact Run.returns_pure fun msg hmsg => ⟨n, hmsg⟩

/-! ### Worlds with a single reply -/

/-- The caches of the state satisfy `J`. -/
def Shares (J : Shared → Prop) (s : St) : Prop := J s.shared

/-- Every query is answered by `msg`, no deadline passes, and neither other tasks
nor the caching of `msg` break the invariant. -/
structure Env.AlwaysSends (env : Env) (msg : Message) (enableIpv6 : Bool) (J : Shared → Prop) :
    Prop where
  reply : ∀ n query servers, env.reply n query servers = some msg
  expires : ∀ n, env.expires n = false
  others : ∀ n, ∀ op ∈ env.others n, ∀ c, J c → J (c.apply op)
  response : ∀ now c, J c → J (c.cacheResponse enableIpv6 now msg)

section Ends

variable {env : Env} {J : Shared → Prop}

/-! ### Basic steps -/

/-- The basic steps return, and keep what holds of the caches. -/
theorem nextTick_ensures : Run.Ensures env (Shares J) nextTick fun _ => True :=
  fun s hs => ⟨s.tick, _, rfl, hs, trivial⟩

theorem readClock_ensures : Run.Ensures env (Shares J) readClock fun _ => True :=
  fun s hs => ⟨env.clock s.tick, _, rfl, hs, trivial⟩

theorem randomId_ensures : Run.Ensures env (Shares J) randomId fun _ => True :=
  fun s hs => ⟨env.queryId s.tick, _, rfl, hs, trivial⟩

/-- So does a call on the caches that keeps it, -/
theorem act_ensures {op : SharedOp} (h : ∀ c, J c → J (c.apply op)) :
    Run.Ensures env (Shares J) (act op) fun _ => True :=
  Run.ensures_modify fun s hs => h s.shared hs

/-- and so do the calls of other tasks. -/
theorem actOthers_ensures {ops : List SharedOp} (h : ∀ op ∈ ops, ∀ c, J c → J (c.apply op)) :
    Run.Ensures env (Shares J) (actOthers ops) fun _ => True := by
  induction ops with
  | nil => exact Run.ensures_pure trivial
  | cons op ops ih =>
      refine Run.ends_bind (act_ensures (h op List.mem_cons_self)) fun _ _ => ?_
      exact ih fun op hop => h op (List.mem_cons_of_mem _ hop)

variable {msg : Message} {cfg : Config} (hworld : env.AlwaysSends msg cfg.enableIpv6 J)

include hworld

/-- The query is answered by the one reply of the world. -/
theorem queryServersConcurrent_ensures (query : Bytes) {servers : List IpAddr}
    (hservers : servers ≠ []) :
    Run.Ensures env (Shares J) (queryServersConcurrent query servers)
      fun reply => reply = some msg := by
  unfold queryServersConcurrent
  rw [if_neg (by simpa using hservers)]
  refine Run.ends_bind Run.ensures_read ?_
  rintro _ rfl
  refine Run.ends_bind nextTick_ensures fun n _ => Run.ends_bind Run.ensures_get fun s _ =>
    Run.ends_bind (actOthers_ensures (hworld.others n)) fun _ _ => ?_
  rw [hworld.expires n, Bool.and_false, if_neg (by decide)]
  exact Run.ensures_pure (hworld.reply n query servers)

theorem cacheResponse_ensures (zone : Bytes) :
    Run.Ensures env (Shares J) (cacheResponse cfg zone msg) fun _ => True :=
  Run.ends_bind readClock_ensures fun now _ =>
    Run.ensures_modify fun s hs => hworld.response now s.shared hs

/-! ### The first round -/

variable {self : Recursive} {name qname : Bytes} {rtype rclass : UInt16} {depth totalLabels : Nat}

/-- **The end of a round** is the end of what is made of the reply. -/
theorem iteration_ends {s : Search} {E : Outcome (Stop × St) ((Search ⊕ Resolution) × St) → Prop}
    (hservers : s.nameservers ≠ []) (hname : minimizeName name totalLabels s = .ok qname)
    (hlength : qname.length ≤ 8165)
    (hreply : Run.Ends env (Shares J)
      (handleReply self cfg name rtype rclass depth totalLabels s qname msg) E) :
    Run.Ends env (Shares J) (iteration self cfg name rtype rclass depth totalLabels s) E := by
  unfold iteration
  rw [if_neg (by simpa using hservers), hname]
  refine Run.ends_bind (P := fun found => found = qname) (Run.ensures_lift rfl) ?_
  rintro _ rfl
  refine Run.ends_bind randomId_ensures ?_
  intro id _
  obtain ⟨query, hquery⟩ := buildQueryStatic_of_length hlength rtype rclass id cfg.dnssecOk false
  rw [hquery]
  refine Run.ends_bind (P := fun built => built = query) (Run.ensures_lift rfl) ?_
  rintro _ rfl
  refine Run.ends_bind (queryServersConcurrent_ensures hworld _ hservers) ?_
  rintro _ rfl
  exact Run.ends_bind (cacheResponse_ensures hworld s.zone) fun _ _ => hreply

end Ends

/-! ### The start of a call -/

/-- Looking for a delegation leaves what the caches hold as it is. -/
theorem findDelegationLoop_frame (now fuel : Nat) (suffix : Bytes) (c : Shared) :
    (findDelegationLoop now fuel suffix c).2.cache = c.cache ∧
      (findDelegationLoop now fuel suffix c).2.nsCache = c.nsCache ∧
      ∀ zone, (findDelegationLoop now fuel suffix c).2.delegationCache.get? zone =
        c.delegationCache.get? zone := by
  induction fuel generalizing suffix c with
  | zero => exact ⟨rfl, rfl, fun _ => rfl⟩
  | succ fuel ih =>
      cases suffix with
      | nil => exact ⟨rfl, rfl, fun _ => rfl⟩
      | cons first rest =>
          obtain ⟨hcache, hns, hget⟩ :=
            ih (rest.drop first.toNat) (c.apply (.delegationGet (first :: rest)))
          have hrest : ∀ zone, (findDelegationLoop now fuel (rest.drop first.toNat)
              (c.apply (.delegationGet (first :: rest)))).2.delegationCache.get? zone =
              c.delegationCache.get? zone :=
            fun zone => (hget zone).trans Lru.get?_touch
          unfold findDelegationLoop
          dsimp only
          split
          · exact ⟨rfl, rfl, fun _ => rfl⟩
          · split
            · split
              · exact ⟨rfl, rfl, fun _ => Lru.get?_touch⟩
              · exact ⟨hcache, hns, hrest⟩
            · exact ⟨hcache, hns, hrest⟩

/-- In caches without a delegation none is found. -/
theorem findDelegationLoop_none (now fuel : Nat) (suffix : Bytes) {c : Shared}
    (h : ∀ zone, c.delegationCache.get? zone = none) :
    (findDelegationLoop now fuel suffix c).1 = none := by
  induction fuel generalizing suffix c with
  | zero => rfl
  | succ fuel ih =>
      cases suffix with
      | nil => rfl
      | cons first rest =>
          unfold findDelegationLoop
          dsimp only
          split
          · rfl
          · rw [h]
            exact ih _ fun zone => Lru.get?_touch.trans (h zone)

/-- The search of a call that starts at the root and minimises. -/
def rootSearch : Search := ⟨initialRootAddrs, [0], 1, false⟩

/-- The first query of such a call asks for the last label. -/
theorem minimizeName_rootSearch (name : Bytes) :
    minimizeName name (countLabels name) rootSearch = namePrefix name 1 := by
  unfold minimizeName
  by_cases hlabels : rootSearch.revealedLabels < countLabels name
  · rw [if_pos hlabels]
    rfl
  · rw [if_neg hlabels]
    exact (if_pos (Nat.not_lt.mp hlabels)).symm

/-- Only a call that starts at the root and minimises does not reveal the full
name. -/
theorem startSearch_revealedLabels {name : Bytes} {qnameMinimize : Bool}
    {cached : Option (List IpAddr × Bytes)}
    (h : ¬ countLabels name ≤ (startSearch name qnameMinimize cached).revealedLabels) :
    qnameMinimize = true ∧ cached = none ∧ 1 < countLabels name ∧
      startSearch name qnameMinimize cached = rootSearch := by
  cases cached with
  | some found => exact absurd (le_refl _) h
  | none =>
      cases qnameMinimize with
      | false => exact absurd (le_refl _) h
      | true => exact ⟨rfl, rfl, Nat.not_le.mp h, rfl⟩

/-- The state after the lookup in the delegation cache. -/
def St.afterLookup (env : Env) (name : Bytes) (s : St) : St :=
  { s with
    tick := s.tick + 1
    shared := (findCachedDelegation (env.clock s.tick) name s.shared).2 }

theorem lookupDelegation_apply (env : Env) (name : Bytes) (s : St) :
    lookupDelegation name env s =
      .ok ((findCachedDelegation (env.clock s.tick) name s.shared).1, s.afterLookup env name) :=
  rfl

/-! ### The servers of a zone -/

/-- The state after a lookup in the nameserver cache as well. -/
def St.afterLookups (env : Env) (zone : Bytes) (s : St) : St :=
  { s.afterLookup env zone with shared := (s.afterLookup env zone).shared.apply (.nsGet zone) }

section ZoneServers

variable {env : Env} {zone : Bytes} {s : St}

/-- The first lookup leaves the nameserver cache alone. -/
theorem nsLookup_afterLookup :
    nsLookup zone env (s.afterLookup env zone) =
      .ok (s.shared.nsCache.get? zone, s.afterLookups env zone) := by
  have hns : (s.afterLookup env zone).shared.nsCache = s.shared.nsCache :=
    (findDelegationLoop_frame _ _ _ _).2.1
  rw [← hns]
  rfl

/-- A cached delegation is taken before anything else. -/
theorem getNameserversForZone_delegation {servers : List IpAddr} {suffix : Bytes}
    (hfind : (findCachedDelegation (env.clock s.tick) zone s.shared).1 = some (servers, suffix)) :
    getNameserversForZone zone env s = .ok (servers, s.afterLookup env zone) := by
  unfold getNameserversForZone
  rw [Run.bind_of_ok (lookupDelegation_apply env zone s), hfind]
  rfl

/-- Without a delegation the addresses of the host with that name are taken. -/
theorem getNameserversForZone_cached {ips : List IpAddr}
    (hfind : (findCachedDelegation (env.clock s.tick) zone s.shared).1 = none)
    (hcached : s.shared.nsCache.get? zone = some ips) :
    getNameserversForZone zone env s = .ok (ips, s.afterLookups env zone) := by
  unfold getNameserversForZone
  rw [Run.bind_of_ok (lookupDelegation_apply env zone s), hfind]
  dsimp only
  rw [Run.bind_of_ok nsLookup_afterLookup, hcached]
  rfl

/-- Without them either, it is the root hints or the servers of a referral. -/
theorem getNameserversForZone_miss
    (hfind : (findCachedDelegation (env.clock s.tick) zone s.shared).1 = none)
    (hcached : s.shared.nsCache.get? zone = none) :
    getNameserversForZone zone env s =
      (if isRootZone zone then pure initialRootAddrs
      else do
        let id ← randomId
        match ← attempt (call (buildQueryStatic zone 2 1 id false false)) with
        | .error _ => pure []
        | .ok query => do
            match ← queryServersConcurrent query initialRootAddrs with
            | none => pure []
            | some msg => collectNameservers msg.additionals (ofType 2 msg.authorities) []) env
        (s.afterLookups env zone) := by
  unfold getNameserversForZone
  rw [Run.bind_of_ok (lookupDelegation_apply env zone s), hfind]
  refine (Run.bind_of_ok nsLookup_afterLookup).trans ?_
  generalize s.shared.nsCache.get? zone = cached at hcached
  cases hcached
  rfl

end ZoneServers

/-! ### The loop of a call -/

/-- Beyond the last level no query is sent. -/
theorem resolveRecursiveBody_tooDeep {self : Recursive} {cfg : Config} {name : Bytes}
    {rtype rclass : UInt16} {depth : Nat} {qnameMinimize : Bool} (hdepth : maxCnameDepth < depth) :
    resolveRecursiveBody self cfg name rtype rclass depth qnameMinimize =
      fail (.malformed "CNAME chain too deep") := by
  unfold resolveRecursiveBody
  exact if_pos hdepth

/-- Up to it a call is the loop, from the search it starts with. -/
theorem resolveRecursiveBody_eq {env : Env} {s : St} {self : Recursive} {cfg : Config}
    {name : Bytes} {rtype rclass : UInt16} {depth : Nat} {qnameMinimize : Bool}
    (hdepth : depth ≤ maxCnameDepth) :
    resolveRecursiveBody self cfg name rtype rclass depth qnameMinimize env s =
      iterate self cfg name rtype rclass depth (countLabels name) maxIterations
        (startSearch name qnameMinimize (findCachedDelegation (env.clock s.tick) name s.shared).1)
        env (s.afterLookup env name) := by
  unfold resolveRecursiveBody
  rw [if_neg (Nat.not_lt.mpr hdepth)]
  rfl

end FastDns.Resolver
