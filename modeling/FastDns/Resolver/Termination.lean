/-
Termination of `resolve_with_ad` (`src/resolver/recursive.rs`: the depth guard
of `resolve_recursive` and the calls that restart it).

Aliases and names of nameservers are resolved one level deeper, and the depth is
bounded; without DNSSEC there are no other calls, so every call tree is finite
(`resolveRecursive_halts`). With DNSSEC a denial restarts the resolver at depth
0 for the keys of the zone, and if the answer to that is a denial again the
resolver starts over (`resolveRecursive_diverges`). In a world in which no question
for keys is denied in that way every call tree is finite, too
(`resolveRecursive_halts_of_spared`). `resolution_terminates_iff` puts these together.
-/

import FastDns.Resolver.Rounds
import FastDns.Resolver.Steps

namespace FastDns.Resolver

open FastDns.Lib FastDns.Dns FastDns.Dnssec

/-! ### Without DNSSEC -/

/-- The basic steps come back, in all worlds. -/
theorem halts_primitives (E : Env → Prop) :
    Primitives fun {α} (m : Resolve α) => Run.Halts E m where
  toClosed := Run.halts_closed _
  tick := Run.halts_modify
  deadline _ := Run.halts_modify
  act _ := Run.halts_modify
  findDelegation _ _ := Run.halts_modify
  response _ _ _ _ := Run.halts_modify
  delegation _ _ _ _ _ _ _ := Run.halts_modify
  spawn := by
    intro α m hm env henv s heq
    unfold Resolver.spawn at heq
    split at heq
    · cases heq
    · cases heq
    · cases heq
    · rename_i hrun
      exact hm env henv _ hrun

/-- Without DNSSEC a call at depth `d` nests at most `maxCnameDepth + 2 - d` calls. -/
theorem resolveRecursive_halts (E : Env → Prop) (fuel : Nat) (cfg : Config) (name : Bytes)
    (rtype rclass : UInt16) (depth : Nat) (qnameMinimize : Bool) (hoff : cfg.dnssecOk = false)
    (hdepth : depth ≤ maxCnameDepth + 1) (hfuel : maxCnameDepth + 2 ≤ depth + fuel) :
    Run.Halts E (resolveRecursive fuel cfg name rtype rclass depth qnameMinimize) := by
  induction fuel generalizing cfg name rtype depth qnameMinimize with
  | zero => omega
  | succ fuel ih =>
      -- Each call below is one level deeper and has one call less to go.
      refine resolveRecursiveBody_closed (halts_primitives E) name rtype depth qnameMinimize
        ?_ ?_ ?_
      · intro hon
        rw [hoff] at hon
        cases hon
      · intro hle ns
        exact ih _ ns 1 (depth + 1) false rfl (Nat.succ_le_succ hle) (by omega)
      · intro hle target
        exact ih cfg target rtype (depth + 1) true hoff (Nat.succ_le_succ hle) (by omega)

/-! ### Worlds that spare questions for keys -/

/-- No question for keys gets a signed negative reply. -/
def Env.SparesKeys (env : Env) (cfg : Config) (rclass : UInt16) : Prop :=
  ∀ n qname id query servers msg,
    buildQueryStatic qname 48 rclass id cfg.dnssecOk false = .ok query →
    env.reply n query servers = some msg → DeniesOrNoData msg → ofType 46 msg.authorities = []

section Spared

variable {env : Env} {self : Recursive} {cfg : Config} {rclass : UInt16}

/-- A round of a question for keys does not restart the resolver. -/
theorem keysIteration_halts (hspares : env.SparesKeys cfg rclass) (name : Bytes)
    (depth totalLabels : Nat) (s : Search)
    (hns : ∀ ns, Run.Halts (· = env)
      (self { cfg with dnssecOk := false } ns 1 rclass (depth + 1) false))
    (halias : ∀ target, Run.Halts (· = env) (self cfg target 48 rclass (depth + 1) true)) :
    Run.Halts (· = env) (iteration self cfg name 48 rclass depth totalLabels s) := by
  have hP := halts_primitives (· = env)
  unfold iteration
  split
  · exact hP.throw _
  refine hP.bind (call_closed hP (minimizeName_ne_diverge _ _ _)) fun qname =>
    hP.bind (randomId_closed hP) fun id =>
    Run.halts_bind_of_returns (call_closed hP (encodeMessage_ne_diverge _))
      (fun _ _ => call_returns) fun query hquery =>
    Run.halts_bind_of_returns (queryServersConcurrent_closed hP _ _) ?_
      (Q := fun reply => ∀ msg, reply = some msg → ∃ n,
        env.reply n query s.nameservers = some msg) ?_
  · rintro _ rfl
    exact queryServersConcurrent_answers query s.nameservers
  intro reply hreply
  cases reply with
  | none => exact hP.pure _
  | some msg =>
      obtain ⟨n, hsent⟩ := hreply msg rfl
      refine hP.bind (cacheResponse_closed hP _ _ _) fun _ =>
        handleReply_closed hP _ _ _ _ _ _ _ (fun direct => ?_) (fun hdenies => ?_) hns halias
      · unfold directAnswer
        rw [if_neg (by simp [isDnssecMeta])]
        exact hP.bind (cacheDelegation_closed hP _ _ (.inl rfl)) fun _ => hP.pure _
      · -- There is no signature, so the reply is not validated.
        have hunsigned := hspares n qname id query s.nameservers msg hquery hsent hdenies
        unfold validateNegativeDnssecResponse
        dsimp only
        rw [if_pos (by simp [hunsigned])]
        exact hP.pure _

/-- A question for keys nests no more calls than one without DNSSEC. -/
theorem keys_halts (hspares : env.SparesKeys cfg rclass) (fuel : Nat) (name : Bytes) (depth : Nat)
    (qnameMinimize : Bool) (hdepth : depth ≤ maxCnameDepth + 1)
    (hfuel : maxCnameDepth + 2 ≤ depth + fuel) :
    Run.Halts (· = env) (resolveRecursive fuel cfg name 48 rclass depth qnameMinimize) := by
  induction fuel generalizing name depth qnameMinimize with
  | zero => omega
  | succ fuel ih =>
      refine resolveRecursiveBody_of_rounds (halts_primitives _) name 48 depth qnameMinimize ?_
      intro hle s
      refine keysIteration_halts hspares name depth _ s (fun ns => ?_) fun target => ?_
      · exact resolveRecursive_halts _ fuel _ ns 1 rclass (depth + 1) false rfl
          (Nat.succ_le_succ hle) (by omega)
      · exact ih target (depth + 1) true (Nat.succ_le_succ hle) (by omega)

/-- Any question nests that many calls more before the ones for keys. -/
theorem resolveRecursive_halts_of_spared (hspares : env.SparesKeys cfg rclass) (fuel : Nat)
    (name : Bytes) (rtype : UInt16) (depth : Nat) (qnameMinimize : Bool)
    (hdepth : depth ≤ maxCnameDepth + 1) (hfuel : 2 * (maxCnameDepth + 2) ≤ depth + fuel) :
    Run.Halts (· = env) (resolveRecursive fuel cfg name rtype rclass depth qnameMinimize) := by
  induction fuel generalizing name depth qnameMinimize with
  | zero => omega
  | succ fuel ih =>
      refine resolveRecursiveBody_closed (halts_primitives _) name rtype depth qnameMinimize
        ?_ ?_ ?_
      · exact fun _ zone => keys_halts hspares fuel zone 0 true (Nat.zero_le _) (by omega)
      · exact fun hle ns => resolveRecursive_halts _ fuel _ ns 1 rclass (depth + 1) false rfl
          (Nat.succ_le_succ hle) (by omega)
      · exact fun hle target => ih target (depth + 1) true (Nat.succ_le_succ hle) (by omega)

end Spared

/-! ### With DNSSEC -/

/-- A denial: RCODE 3 with an SOA record of the root and a signature. -/
def denialReply : Message := replyWith 3 [] [⟨[0], 6, 1, 0, 0, [], none⟩, unparsedRrsig] []

/-- The world in which all servers deny everything. -/
def denialEnv : Env := .answering Crypto.rejectAll fun _ _ => some denialReply

/-- Nothing is cached. -/
structure Bare (c : Shared) : Prop where
  entries : ∀ k, c.cache.entries.get? k = none
  staleEntries : ∀ k, c.cache.staleEntries.get? k = none
  delegationCache : ∀ zone, c.delegationCache.get? zone = none

/-- New caches are bare. -/
theorem bare_new (cacheSize : Nat) : Bare (Shared.new cacheSize) where
  entries _ := Lru.get?_new
  staleEntries _ := Lru.get?_new
  delegationCache _ := Lru.get?_new

/-- Nothing but the denial is ever sent there. -/
theorem denialEnv_alwaysSends (enableIpv6 : Bool) :
    denialEnv.AlwaysSends denialReply enableIpv6 Bare where
  reply _ _ _ := rfl
  expires _ := rfl
  others := by
    intro n op hop
    cases hop
  response _ _ h := h

/-- In caches without a delegation none is found. -/
theorem findDelegationLoop_bare (now fuel : Nat) (suffix : Bytes) {c : Shared} (h : Bare c) :
    (findDelegationLoop now fuel suffix c).1 = none ∧
      Bare (findDelegationLoop now fuel suffix c).2 := by
  obtain ⟨hcache, _, hdelegations⟩ := findDelegationLoop_frame now fuel suffix c
  exact ⟨findDelegationLoop_none now fuel suffix h.delegationCache, hcache ▸ h.entries,
    hcache ▸ h.staleEntries, fun zone => (hdelegations zone).trans (h.delegationCache zone)⟩

/-- A look-up without an entry only counts the miss. -/
theorem lookup_bare {c : DnsCache} {key : CacheKey} (h : c.entries.get? key = none) (now : Nat) :
    c.lookup now key = (none, { c with misses := c.misses + 1 }) := by
  rw [DnsCache.lookup, h]

theorem lookupStale_bare {c : DnsCache} {key : CacheKey} (h : c.staleEntries.get? key = none)
    (now : Nat) : c.lookupStale now key = (none, c) := by
  rw [DnsCache.lookupStale, h]

theorem cacheLookup_bare {env : Env} (key : CacheKey) :
    Run.Ensures env (Shares Bare) (cacheLookup key) fun found => found = none := by
  refine Run.ends_bind readClock_ensures fun now _ => Run.ends_bind Run.ensures_get fun s hs =>
    Run.ends_bind (act_ensures ?_) fun _ _ => Run.ensures_pure ?_
  · intro c hc
    change Bare { c with cache := (c.cache.lookup now key).2 }
    rw [lookup_bare (hc.entries key)]
    exact ⟨hc.entries, hc.staleEntries, hc.delegationCache⟩
  · rw [lookup_bare (hs.entries key)]

theorem cacheLookupStale_bare {env : Env} (key : CacheKey) :
    Run.Ensures env (Shares Bare) (cacheLookupStale key) fun found => found = none := by
  refine Run.ends_bind readClock_ensures fun now _ => Run.ends_bind Run.ensures_get fun s hs =>
    Run.ends_bind (act_ensures ?_) fun _ _ => Run.ensures_pure ?_
  · intro c hc
    change Bare { c with cache := (c.cache.lookupStale now key).2 }
    rw [lookupStale_bare (hc.staleEntries key)]
    exact hc
  · rw [lookupStale_bare (hs.staleEntries key)]

section Denial

variable {env : Env} {self : Recursive} {cfg : Config} {rclass : UInt16}

/-- With nothing cached the question goes to `resolve_recursive`. -/
theorem resolveEncoded_diverges {encodedName : Bytes} {rtype : UInt16}
    (hself : Run.Ends env (Shares Bare) (self cfg encodedName rtype rclass 0 true)
      fun o => o = .diverge) :
    Run.Ends env (Shares Bare) (resolveEncoded self cfg encodedName rtype rclass)
      fun o => o = .diverge := by
  refine Run.ends_bind (cacheLookup_bare _) ?_
  rintro _ rfl
  refine Run.ends_bind (cacheLookupStale_bare _) ?_
  rintro _ rfl
  exact Run.ends_bind_of_diverges hself

/-- The denial makes the resolver ask for the keys of the root. -/
theorem handleReply_denialReply {name : Bytes} {rtype : UInt16} {depth totalLabels : Nat}
    {s : Search} {minimizedName : Bytes} (hon : cfg.dnssecOk = true)
    (hself : Run.Ends env (Shares Bare) (self cfg [0] 48 rclass 0 true) fun o => o = .diverge) :
    Run.Ends env (Shares Bare)
      (handleReply self cfg name rtype rclass depth totalLabels s minimizedName denialReply)
      fun o => o = .diverge := by
  have hkeys : Run.Ends env (Shares Bare) (resolve self cfg [46] 48 rclass)
      fun o => o = .diverge :=
    Run.ends_bind_of_diverges (resolveEncoded_diverges hself)
  have hnegative : Run.Ends env (Shares Bare)
      (validateNegativeDnssecResponse self cfg denialReply name rclass) fun o => o = .diverge := by
    unfold validateNegativeDnssecResponse
    rw [hon]
    refine Run.ends_bind_of_diverges (Run.ends_handle_of_diverges ?_)
    exact Run.ends_bind_of_diverges hkeys
  exact Run.ends_bind_of_diverges hnegative

/-- By induction on the nesting: the call for the denied key never returns either. -/
theorem resolveRecursive_diverges (hon : cfg.dnssecOk = true) (fuel : Nat) {name qname : Bytes}
    (rtype : UInt16) (hname : namePrefix name 1 = .ok qname) (hlength : qname.length ≤ 8165) :
    Run.Ends denialEnv (Shares Bare) (resolveRecursive fuel cfg name rtype rclass 0 true)
      fun o => o = .diverge := by
  induction fuel generalizing name qname rtype with
  | zero => exact fun _ _ => rfl
  | succ fuel ih =>
      -- The denial restarts the resolver for the root's keys, with one call less to go.
      have hroot : namePrefix [0] 1 = .ok [0] := rfl
      have hloop : Run.Ends denialEnv (Shares Bare)
          (iterate (resolveRecursive fuel) cfg name rtype rclass 0 (countLabels name) maxIterations
            rootSearch) fun o => o = .diverge := by
        rw [show maxIterations = 31 + 1 from rfl, iterate]
        refine Run.ends_bind_of_diverges ?_
        exact iteration_ends (denialEnv_alwaysSends cfg.enableIpv6) (by decide)
          ((minimizeName_rootSearch name).trans hname) hlength
          (handleReply_denialReply hon (ih 48 hroot (by decide)))
      intro s hs
      obtain ⟨hmiss, hbare⟩ := findDelegationLoop_bare (denialEnv.clock s.tick) name.length name hs
      refine (resolveRecursiveBody_eq (Nat.zero_le _)).trans ?_
      rw [findCachedDelegation, hmiss]
      exact hloop _ hbare

/-- **If all servers deny everything, the resolver never comes back.** -/
theorem resolveWithAd_diverges (hon : cfg.dnssecOk = true) (fuel : Nat) {name encodedName : Bytes}
    (rtype : UInt16) (hname : encodeDomainName name = .ok encodedName) :
    Run.Ends denialEnv (Shares Bare) (resolveWithAd (resolveRecursive fuel) cfg name rtype rclass)
      fun o => o = .diverge := by
  obtain ⟨labels, hok, rfl⟩ := encodeDomainName_eq_ok hname
  have hlast : LabelsOk (labels.drop (labels.length - 1)) :=
    fun label hlabel => hok label (List.mem_of_mem_drop hlabel)
  have hlength : (wireName (labels.drop (labels.length - 1))).length ≤ 8165 := by
    have hbound := length_wireName_le hlast
    rw [List.length_drop] at hbound
    omega
  unfold resolveWithAd
  rw [hname]
  refine Run.ends_bind (P := fun encodedName => encodedName = wireName labels)
    (Run.ensures_lift rfl) ?_
  rintro _ rfl
  exact resolveEncoded_diverges
    (resolveRecursive_diverges hon fuel rtype (namePrefix_wireName hok 1) hlength)

end Denial

/-! ### When every call tree is finite -/

/-- The call tree of a question is finite: some bound on the nesting of calls is
never reached. -/
def Terminates (cfg : Config) (name : Bytes) (rtype rclass : UInt16) (env : Env) (s : St) : Prop :=
  ∃ fuel, resolveWithAd (resolveRecursive fuel) cfg name rtype rclass env s ≠ .diverge

/-- **A question has a finite call tree in every world exactly when DNSSEC is off
or its name cannot be encoded.** In one world it has, too, if no question for keys gets
a signed negative reply there. -/
theorem resolution_terminates_iff (cfg : Config) (name : Bytes) (rtype rclass : UInt16) :
    ((∀ env s, Terminates cfg name rtype rclass env s) ↔
      cfg.dnssecOk = false ∨ ∀ encodedName, encodeDomainName name ≠ .ok encodedName) ∧
    ∀ env, env.SparesKeys cfg rclass → ∀ s, Terminates cfg name rtype rclass env s := by
  refine ⟨?_, fun env hspares s => ⟨2 * (maxCnameDepth + 2), ?_⟩⟩
  swap
  · exact resolveWithAd_closed (halts_primitives (· = env)) name
      (fun encodedName => resolveRecursive_halts_of_spared hspares _ encodedName rtype 0 true
        (Nat.zero_le _) (Nat.le_add_left _ _)) env rfl s
  constructor
  · intro hall
    by_contra hcond
    simp only [not_or, Bool.not_eq_false, ne_eq, not_forall, not_not] at hcond
    obtain ⟨hon, encodedName, hname⟩ := hcond
    obtain ⟨fuel, hreturns⟩ := hall denialEnv (.initial 10)
    exact hreturns (resolveWithAd_diverges hon fuel rtype hname (.initial 10) (bare_new 10))
  · rintro (hoff | hname) env s
    · refine ⟨maxCnameDepth + 2, ?_⟩
      refine resolveWithAd_closed (halts_primitives (· = env)) name ?_ env rfl s
      intro encodedName
      exact resolveRecursive_halts _ _ cfg encodedName rtype rclass 0 true hoff (Nat.zero_le _)
        (by decide)
    · refine ⟨0, ?_⟩
      unfold resolveWithAd
      cases hencode : encodeDomainName name with
      | ok encodedName => exact absurd hencode (hname encodedName)
      | err e => rintro ⟨⟩
      | panic => rintro ⟨⟩
      | diverge => exact absurd hencode (encodeDomainName_ne_diverge name)

/-- `a.test` is asked for with DNSSEC, and every query is denied. -/
theorem denied_question_never_returns :
    ¬ Terminates ⟨false, true⟩ [0x61, 0x2e, 0x74, 0x65, 0x73, 0x74] 1 1 denialEnv
      (.initial 10) := by
  rintro ⟨fuel, hreturns⟩
  have hname : encodeDomainName [0x61, 0x2e, 0x74, 0x65, 0x73, 0x74] =
      .ok [1, 0x61, 4, 0x74, 0x65, 0x73, 0x74, 0] := by
    decide +kernel
  exact hreturns (resolveWithAd_diverges rfl fuel 1 hname (.initial 10) (bare_new 10))

end FastDns.Resolver
