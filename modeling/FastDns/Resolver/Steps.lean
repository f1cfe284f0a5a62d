/-
A resolution as a sequence of steps.

Every function of the resolver is built from the basic steps of `State` by
sequencing, error handling and calls of `resolve_recursive`. A predicate on
programs that holds of the basic steps and is closed under these constructions
(`Primitives`) therefore holds of the whole resolver, as soon as it holds of
the calls the function makes; `resolveRecursiveBody_closed` says which calls
those are. With `Keeps` this gives the step relation of the system:
every run of the resolver is a sequence of `Step`s (`resolveRecursive_steps`),
and what one step preserves, every run preserves.
-/

import FastDns.Resolver.Recursive
import Mathlib.Logic.Relation

namespace FastDns.Resolver

open FastDns.Lib FastDns.Dns FastDns.Dnssec

/-- The name a delegation is stored under: the name being resolved, or the owner
of the first NS record of the response. -/
def WrittenZone (name : Bytes) (msg : Message) (written : Bytes) : Prop :=
  written = name ∨ ∃ first, (ofType 2 msg.authorities).head? = some first ∧ written = first.name

/-- `P` holds of the basic steps of the resolver and is closed under the ways to
combine them. -/
structure Primitives (P : ∀ {α : Type}, Resolve α → Prop) : Prop extends Run.Closed P where
  tick : P (Run.modify fun s => { s with tick := s.tick + 1 })
  deadline : ∀ b, P (setRefreshing b)
  act : ∀ op, P (act op)
  findDelegation : ∀ now name,
    P (Run.modify fun s => { s with shared := (findCachedDelegation now name s.shared).2 })
  response : ∀ enableIpv6 now zone msg, P (Run.modify (St.cacheResponse enableIpv6 now zone msg))
  delegation : ∀ now zone name msg written servers, WrittenZone name msg written →
    P (Run.modify (St.cacheDelegation now zone name msg written servers))
  spawn : ∀ {α : Type} {m : Resolve α}, P m → P (spawn m)

/-! ### Functions without state -/

/-- Encoding a name ends, with the name or an error. -/
theorem encodeDomainName_ne_diverge (name : Bytes) : encodeDomainName name ≠ .diverge := by
  rcases encodeDomainName_ends name with ⟨_, hok⟩ | ⟨_, herr⟩
  · simp [hok]
  · simp [herr]

theorem namePrefix_ne_diverge (name : Bytes) (n : Nat) : namePrefix name n ≠ .diverge := by
  rcases namePrefix_ends name n with ⟨_, hok⟩ | hpanic
  · simp [hok]
  · simp [hpanic]

/-- Writing ends, by induction on the items. -/
theorem writeItems_ne_diverge {α : Type} {write : α → Nat → DnsResult Bytes}
    (hwrite : ∀ a n, write a n ≠ .diverge) (capacity : Nat) (items : List α) (written : Bytes) :
    writeItems write capacity items written ≠ .diverge := by
  induction items generalizing written with
  | nil => simp [writeItems]
  | cons item items ih =>
      intro h
      rcases Outcome.bind_eq_diverge.mp h with h | ⟨_, _, h⟩
      · exact hwrite _ _ h
      · exact ih _ h

theorem question_toBytes_ne_diverge (q : Question) (room : Nat) : q.toBytes room ≠ .diverge := by
  unfold Question.toBytes
  dsimp only
  split <;> simp

theorem record_toBytes_ne_diverge (r : ResourceRecord) (room : Nat) :
    r.toBytes room ≠ .diverge := by
  unfold ResourceRecord.toBytes
  dsimp only
  split
  · simp
  · split <;> simp

/-- A message is its header and three lists of items. -/
theorem encodeMessage_ne_diverge (m : Message) : encodeMessage m ≠ .diverge := by
  intro h
  rcases Outcome.bind_eq_diverge.mp h with h | ⟨_, _, h⟩
  · unfold Header.toBytes at h
    split at h <;> cases h
  rcases Outcome.bind_eq_diverge.mp h with h | ⟨_, _, h⟩
  · exact writeItems_ne_diverge question_toBytes_ne_diverge _ _ _ h
  rcases Outcome.bind_eq_diverge.mp h with h | ⟨_, _, h⟩
  · exact writeItems_ne_diverge record_toBytes_ne_diverge _ _ _ h
  rcases Outcome.bind_eq_diverge.mp h with h | ⟨_, _, h⟩
  · exact writeItems_ne_diverge record_toBytes_ne_diverge _ _ _ h
  · exact writeItems_ne_diverge record_toBytes_ne_diverge _ _ _ h

/-- The name of a round is computed. -/
theorem minimizeName_ne_diverge (name : Bytes) (totalLabels : Nat) (s : Search) :
    minimizeName name totalLabels s ≠ .diverge := by
  unfold minimizeName
  split
  · exact namePrefix_ne_diverge _ _
  · simp

/-! ### Closure, function by function -/

section Closure

variable {P : ∀ {α : Type}, Resolve α → Prop} (hP : Primitives P)

include hP

/-- A reading is a step of the clock. -/
theorem nextTick_closed : P nextTick :=
  hP.bind hP.get fun _ => hP.bind hP.tick fun _ => hP.pure _

theorem readClock_closed : P readClock :=
  hP.bind hP.read fun _ => hP.bind (nextTick_closed hP) fun _ => hP.pure _

theorem readWall_closed : P readWall :=
  hP.bind hP.read fun _ => hP.bind (nextTick_closed hP) fun _ => hP.pure _

theorem randomId_closed : P randomId :=
  hP.bind hP.read fun _ => hP.bind (nextTick_closed hP) fun _ => hP.pure _

/-- Errors are caught and cancellation goes on. -/
theorem attempt_closed {α : Type} {m : Resolve α} (hm : P m) : P (attempt m) := by
  refine hP.handle (hP.bind hm fun _ => hP.pure _) ?_
  intro stop
  cases stop with
  | error e => exact hP.pure _
  | cancelled => exact hP.throw _

/-- The deadline is set before the program and taken back behind it. -/
theorem withDeadline_closed {α : Type} {m : Resolve α} (hm : P m) : P (withDeadline m) := by
  refine hP.bind hP.get ?_
  intro s
  split
  · exact hm
  · refine hP.bind (hP.deadline true) fun _ => hP.bind ?_ fun _ =>
      hP.bind (hP.deadline false) fun _ => hP.pure _
    refine hP.handle hm fun stop => hP.bind (hP.deadline false) fun _ => ?_
    cases stop with
    | error e => exact hP.throw _
    | cancelled => exact hP.throw _

/-- Calls of other tasks, one after the other. -/
theorem actOthers_closed (ops : List SharedOp) : P (actOthers ops) := by
  induction ops with
  | nil => exact hP.pure _
  | cons op ops ih => exact hP.bind (hP.act op) fun _ => ih

/-- A query is a reading and the calls that other tasks make meanwhile. -/
theorem queryServersConcurrent_closed (query : Bytes) (servers : List IpAddr) :
    P (queryServersConcurrent query servers) := by
  unfold queryServersConcurrent
  split
  · exact hP.pure _
  · refine hP.bind hP.read fun env => hP.bind (nextTick_closed hP) fun n =>
      hP.bind hP.get fun s => hP.bind (actOthers_closed hP _) fun _ => ?_
    split
    · exact hP.throw _
    · exact hP.pure _

/-- A look-up is a reading of the clock and a call. -/
theorem cacheLookup_closed (key : CacheKey) : P (cacheLookup key) :=
  hP.bind (readClock_closed hP) fun _ => hP.bind hP.get fun _ =>
    hP.bind (hP.act _) fun _ => hP.pure _

theorem cacheLookupStale_closed (key : CacheKey) : P (cacheLookupStale key) :=
  hP.bind (readClock_closed hP) fun _ => hP.bind hP.get fun _ =>
    hP.bind (hP.act _) fun _ => hP.pure _

/-- Inserting, by induction on the records. -/
theorem insertEach_closed (now : Nat) (records : List ResourceRecord) :
    P (insertEach now records) := by
  induction records with
  | nil => exact hP.pure _
  | cons r records ih => exact hP.bind (hP.act _) fun _ => ih

theorem cacheInsertRecords_closed (records : List ResourceRecord) :
    P (cacheInsertRecords records) :=
  hP.bind (readClock_closed hP) fun now => insertEach_closed hP now records

theorem nsLookup_closed (name : Bytes) : P (nsLookup name) :=
  hP.bind hP.get fun _ => hP.bind (hP.act _) fun _ => hP.pure _

theorem lookupDelegation_closed (name : Bytes) : P (lookupDelegation name) :=
  hP.bind (readClock_closed hP) fun now => hP.bind hP.get fun _ =>
    hP.bind (hP.findDelegation now name) fun _ => hP.pure _

/-- The two writes with an event of their own. -/
theorem cacheResponse_closed (cfg : Config) (zone : Bytes) (msg : Message) :
    P (cacheResponse cfg zone msg) :=
  hP.bind (readClock_closed hP) fun now => hP.response _ now zone msg

theorem cacheDelegation_closed {name written : Bytes} {msg : Message} (zone : Bytes)
    (servers : List IpAddr) (h : WrittenZone name msg written) :
    P (cacheDelegation zone name msg written servers) :=
  hP.bind (readClock_closed hP) fun now => hP.delegation now zone name msg written servers h

/-- A function without state does not keep a run from returning if it returns itself. -/
theorem call_closed {α : Type} {x : DnsResult α} (hx : x ≠ .diverge) : P (call x) :=
  hP.lift .error hx

/-! The queries of the DNSSEC code. -/

theorem callOk_closed {α β : Type} {x : DnsResult α} {k : α → Resolve (Option β)}
    (hx : x ≠ .diverge) (hk : ∀ a, P (k a)) : P (callOk x k) := by
  refine hP.bind (attempt_closed hP (call_closed hP hx)) ?_
  intro result
  cases result with
  | ok a => exact hk a
  | error e => exact hP.pure _

/-- The query for signatures is one query. -/
theorem queryRd1_closed (name : Bytes) (rtype rclass : UInt16) (servers : List IpAddr) :
    P (queryRd1 name rtype rclass servers) := by
  unfold queryRd1
  split
  · exact hP.pure _
  · exact hP.bind (randomId_closed hP) fun id => callOk_closed hP (encodeMessage_ne_diverge _)
      fun query => queryServersConcurrent_closed hP query servers

/-- Records of DNSSEC are looked up in the cache. -/
theorem resolveDnssec_closed (name : Bytes) (rtype rclass : UInt16) :
    P (resolveDnssec name rtype rclass) := by
  refine hP.bind (attempt_closed hP (call_closed hP (encodeDomainName_ne_diverge name)))
    ?_
  intro result
  cases result with
  | ok encoded => exact hP.bind (cacheLookup_closed hP _) fun _ => hP.pure _
  | error e => exact hP.pure _

/-- By induction on the NS records. -/
theorem collectNameservers_closed (additionals nsRecords : List ResourceRecord)
    (ips : List IpAddr) : P (collectNameservers additionals nsRecords ips) := by
  induction nsRecords generalizing ips with
  | nil => exact hP.pure _
  | cons ns rest ih =>
      unfold collectNameservers
      split
      · dsimp only
        split
        · exact hP.bind (nsLookup_closed hP _) fun _ => ih _
        · exact ih _
      · exact ih _

/-- The servers of a zone come from the caches, or from one query to the root. -/
theorem getNameserversForZone_closed (zone : Bytes) : P (getNameserversForZone zone) := by
  refine hP.bind (lookupDelegation_closed hP zone) ?_
  intro delegation
  cases delegation with
  | some found => exact hP.pure _
  | none =>
      refine hP.bind (nsLookup_closed hP zone) ?_
      intro cached
      cases cached with
      | some ips => exact hP.pure _
      | none =>
          dsimp only
          split
          · exact hP.pure _
          · refine hP.bind (randomId_closed hP) fun id => hP.bind
              (attempt_closed hP (call_closed hP (encodeMessage_ne_diverge _))) ?_
            intro query
            cases query with
            | error e => exact hP.pure _
            | ok query =>
                refine hP.bind (queryServersConcurrent_closed hP _ _) ?_
                intro reply
                cases reply with
                | none => exact hP.pure _
                | some msg => exact collectNameservers_closed hP _ _ _

/-- One query to the servers of a zone. -/
theorem queryZone_closed {β : Type} (name : Bytes) (rtype : UInt16) (zone : Bytes)
    (k : Message → Option β) : P (queryZone name rtype zone k) := by
  refine hP.bind (randomId_closed hP) fun id => callOk_closed hP (encodeMessage_ne_diverge _)
    fun query => hP.bind (getNameserversForZone_closed hP zone) ?_
  intro nameservers
  split
  · exact hP.pure _
  · exact hP.bind (queryServersConcurrent_closed hP _ _) fun _ => hP.pure _

/-- By induction on the levels that are left. -/
theorem validateDnssecChain_closed (remaining : Nat) (zoneName : Bytes)
    (dnskeys rrsigs : List ResourceRecord) (signerName : Bytes) :
    P (validateDnssecChain remaining zoneName dnskeys rrsigs signerName) := by
  induction remaining generalizing zoneName dnskeys rrsigs signerName with
  | zero => exact hP.pure _
  | succ remaining ih =>
      unfold validateDnssecChain
      split
      · exact hP.pure _
      split
      · split
        · exact hP.pure _
        · exact hP.pure _
      · refine hP.bind (queryZone_closed hP _ _ _ _) ?_
        intro ds
        cases ds with
        | none => exact hP.pure _
        | some found =>
            refine hP.bind hP.read ?_
            intro env
            split
            · exact hP.pure _
            · refine hP.bind (readWall_closed hP) ?_
              intro now
              split
              · exact hP.pure _
              · refine hP.bind (queryZone_closed hP _ _ _ _) ?_
                intro keys
                cases keys with
                | none =>
                    dsimp only
                    split
                    · exact hP.pure _
                    · exact hP.pure _
                | some keys => exact ih _ _ _ _

/-! The resolver itself, for a predicate that holds of the calls it makes. -/

section Body

variable {self : Recursive} {cfg : Config} {rclass : UInt16}

/-- The stale refresh and the resolution proper are one call each, at depth 0. -/
theorem resolveEncoded_closed {encodedName : Bytes} {rtype : UInt16}
    (hself : P (self cfg encodedName rtype rclass 0 true)) :
    P (resolveEncoded self cfg encodedName rtype rclass) := by
  refine hP.bind (cacheLookup_closed hP _) ?_
  intro found
  cases found with
  | some hit =>
      dsimp only
      split
      · exact hP.bind (hP.spawn hself) fun _ => hP.pure _
      · exact hP.bind (hP.pure _) fun _ => hP.pure _
  | none =>
      refine hP.bind (cacheLookupStale_closed hP _) ?_
      intro stale
      cases stale with
      | some stale =>
          refine hP.bind (attempt_closed hP (withDeadline_closed hP hself)) ?_
          intro fresh
          cases fresh with
          | ok fresh => exact hP.bind (cacheInsertRecords_closed hP _) fun _ => hP.pure _
          | error e => exact hP.pure _
      | none =>
          exact hP.bind hself fun _ => hP.bind (cacheInsertRecords_closed hP _) fun _ => hP.pure _

/-- So is the whole, once the name is encoded. -/
theorem resolveWithAd_closed {rtype : UInt16} (name : Bytes)
    (hself : ∀ encodedName, P (self cfg encodedName rtype rclass 0 true)) :
    P (resolveWithAd self cfg name rtype rclass) :=
  hP.bind (call_closed hP (encodeDomainName_ne_diverge name)) fun encodedName =>
    resolveEncoded_closed hP (hself encodedName)

theorem resolve_closed {rtype : UInt16} (name : Bytes)
    (hself : ∀ encodedName, P (self cfg encodedName rtype rclass 0 true)) :
    P (resolve self cfg name rtype rclass) :=
  hP.bind (resolveWithAd_closed hP name hself) fun _ => hP.pure _

/-- Without DNSSEC a negative answer makes no calls. -/
theorem validateNegativeDnssecResponse_closed (msg : Message) (name : Bytes)
    (hrestart : cfg.dnssecOk = true → ∀ zone, P (self cfg zone 48 rclass 0 true)) :
    P (validateNegativeDnssecResponse self cfg msg name rclass) := by
  unfold validateNegativeDnssecResponse
  dsimp only
  split
  · exact hP.pure _
  · rename_i hgo
    have hok : cfg.dnssecOk = true := by
      simp only [Bool.or_eq_true, Bool.not_eq_true', not_or, Bool.not_eq_false] at hgo
      exact hgo.1
    refine hP.bind (attempt_closed hP (resolve_closed hP _ (hrestart hok))) ?_
    intro dnskeys
    cases dnskeys with
    | error e => exact hP.pure _
    | ok dnskeys =>
        dsimp only
        split
        · exact hP.pure _
        · exact hP.pure _

/-- Signatures come from the reply or from a second query. -/
theorem responseMaterial_closed (name : Bytes) (rtype : UInt16) (nameservers : List IpAddr)
    (msg : Message) : P (responseMaterial name rtype rclass nameservers msg) := by
  unfold responseMaterial
  dsimp only
  split
  · refine hP.bind (queryRd1_closed hP _ _ _ _) ?_
    intro rd1
    cases rd1 with
    | none => exact hP.pure _
    | some rd1 => exact hP.pure _
  · exact hP.pure _

/-- Missing keys are resolved by a call at depth 0. -/
theorem answerMaterial_closed (name : Bytes) (rtype : UInt16) (nameservers : List IpAddr)
    (msg : Message) (hrestart : ∀ zone, P (self cfg zone 48 rclass 0 true)) :
    P (answerMaterial self cfg name rtype rclass nameservers msg) := by
  refine hP.bind (responseMaterial_closed hP _ _ _ _) ?_
  intro material
  dsimp only
  split
  · refine hP.bind (attempt_closed hP (resolve_closed hP _ hrestart)) ?_
    intro records
    cases records with
    | error e => exact hP.pure _
    | ok records =>
        dsimp only
        split
        · exact hP.pure _
        · exact hP.bind (resolveDnssec_closed hP _ _ _) fun _ => hP.pure _
  · exact hP.pure _

/-- The check is a look-up for each suffix. -/
theorem checkMissingSignature_closed (name : Bytes) (n : Nat) :
    P (checkMissingSignature name rclass n) := by
  induction n using Nat.strong_induction_on with
  | _ n ih =>
      match n with
      | 0 => exact hP.pure _
      | 1 => exact hP.pure _
      | n + 2 =>
          refine hP.bind (call_closed hP (namePrefix_ne_diverge _ _)) fun zone =>
            hP.bind (resolveDnssec_closed hP _ _ _) ?_
          intro ds
          split
          · exact hP.throw _
          · exact ih (n + 1) (Nat.lt_succ_self _)

/-- The verdict may lead to that check. -/
theorem applyVerdict_closed (name : Bytes) (totalLabels : Nat) (adBit : Bool)
    (rrsigs dnskeys : List ResourceRecord) (verdict : ValidationResult) :
    P (applyVerdict name rclass totalLabels adBit rrsigs dnskeys verdict) := by
  cases verdict with
  | secure => exact hP.pure _
  | bogus reason => exact hP.throw _
  | insecure => exact hP.pure _
  | indeterminate =>
      unfold applyVerdict
      dsimp only
      split
      · exact hP.throw _
      · split
        · exact hP.bind (checkMissingSignature_closed hP name _) fun _ => hP.pure _
        · exact hP.pure _

/-- The chain is walked from the first key. -/
theorem walkChain_closed (rrsigs dnskeys : List ResourceRecord) :
    P (walkChain rrsigs dnskeys) := by
  unfold walkChain
  split
  · exact hP.bind (validateDnssecChain_closed hP _ _ _ _ _) fun _ => hP.pure _
  · exact hP.pure _

/-- A direct answer calls for its keys only. -/
theorem directAnswer_closed (name : Bytes) (rtype : UInt16) (totalLabels : Nat) (s : Search)
    (msg : Message) (direct : List ResourceRecord)
    (hrestart : cfg.dnssecOk = true → ∀ zone, P (self cfg zone 48 rclass 0 true)) :
    P (directAnswer self cfg name rtype rclass totalLabels s msg direct) := by
  unfold directAnswer
  split
  · rename_i hgo
    have hok : cfg.dnssecOk = true := by
      simp only [Bool.and_eq_true] at hgo
      exact hgo.1
    exact hP.bind (answerMaterial_closed hP _ _ _ _ (hrestart hok)) fun _ =>
      hP.bind hP.read fun _ => hP.bind (readWall_closed hP) fun _ =>
      hP.bind (applyVerdict_closed hP _ _ _ _ _ _) fun _ =>
      hP.bind (walkChain_closed hP _ _) fun _ =>
      hP.bind (cacheDelegation_closed hP _ _ (.inl rfl)) fun _ => hP.pure _
  · exact hP.bind (cacheDelegation_closed hP _ _ (.inl rfl)) fun _ => hP.pure _

/-- By induction on the NS records: glue, cached addresses, or names to resolve. -/
theorem referralServers_closed (additionals nsRecords : List ResourceRecord)
    (servers : List IpAddr) (toResolve : List Bytes) :
    P (referralServers cfg additionals nsRecords servers toResolve) := by
  induction nsRecords generalizing servers toResolve with
  | nil => exact hP.pure _
  | cons ns rest ih =>
      unfold referralServers
      dsimp only
      split
      · exact ih _ _
      · refine hP.bind (nsLookup_closed hP _) ?_
        intro cached
        cases cached with
        | some cached => exact ih _ _
        | none => exact ih _ _

/-- Each name of a nameserver is one call, a level deeper and without DNSSEC. -/
theorem resolveNsNamesConcurrently_closed {depth : Nat} (names : List Bytes)
    (hns : ∀ ns, P (self { cfg with dnssecOk := false } ns 1 rclass (depth + 1) false)) :
    P (resolveNsNamesConcurrently self cfg rclass depth names) := by
  induction names with
  | nil => exact hP.pure _
  | cons name rest ih =>
      unfold resolveNsNamesConcurrently
      split
      · exact ih
      · exact hP.bind (attempt_closed hP (hns name)) fun _ => hP.bind ih fun _ => hP.pure _

/-- What was resolved is stored. -/
theorem storeNsAddrs_closed (resolved : List (Bytes × List IpAddr)) (servers : List IpAddr) :
    P (storeNsAddrs resolved servers) := by
  induction resolved generalizing servers with
  | nil => exact hP.pure _
  | cons entry rest ih =>
      unfold storeNsAddrs
      split
      · exact ih _
      · exact hP.bind (hP.act _) fun _ => ih _

/-- Without an SOA record there is nothing to validate. -/
theorem negativeAnswer_closed (name : Bytes) (totalLabels : Nat) (s : Search)
    (minimizedName : Bytes) (msg : Message)
    (hnegative : ofType 6 msg.authorities ≠ [] →
      P (validateNegativeDnssecResponse self cfg msg name rclass)) :
    P (negativeAnswer self cfg name rclass totalLabels s minimizedName msg) := by
  unfold negativeAnswer
  split
  · rename_i hsoa
    exact hP.bind (hnegative (by simpa using hsoa)) fun _ => hP.pure _
  · exact hP.pure _

/-- A referral calls for the nameservers it has no address of. -/
theorem referral_closed (name : Bytes) (depth totalLabels : Nat) (s : Search)
    (minimizedName : Bytes) (msg : Message)
    (hnegative : ofType 6 msg.authorities ≠ [] →
      P (validateNegativeDnssecResponse self cfg msg name rclass))
    (hns : ∀ ns, P (self { cfg with dnssecOk := false } ns 1 rclass (depth + 1) false)) :
    P (referral self cfg name rclass depth totalLabels s minimizedName msg) := by
  unfold referral
  split
  · exact negativeAnswer_closed hP _ _ _ _ _ hnegative
  · rename_i first others hfirst
    refine hP.bind (referralServers_closed hP _ _ _ _) fun known =>
      hP.bind (resolveNsNamesConcurrently_closed hP _ hns) fun resolved =>
      hP.bind (storeNsAddrs_closed hP _ _) ?_
    intro newServers
    split
    · exact negativeAnswer_closed hP _ _ _ _ _ hnegative
    · have hzone : WrittenZone name msg first.name := .inr ⟨first, by rw [hfirst]; rfl, rfl⟩
      exact hP.bind (cacheDelegation_closed hP _ _ hzone) fun _ => hP.pure _

/-- A denial, or a reply without data: the resolver validates it as a negative one. -/
def DeniesOrNoData (msg : Message) : Prop :=
  msg.header.rcode = 3 ∨ msg.header.rcode = 0 ∧ ofType 6 msg.authorities ≠ []

/-- What a reply leads to, from the programs for direct and for negative answers. -/
theorem handleReply_closed (name : Bytes) (rtype : UInt16) (depth totalLabels : Nat) (s : Search)
    (minimizedName : Bytes) (msg : Message)
    (hdirect : ∀ direct, P (directAnswer self cfg name rtype rclass totalLabels s msg direct))
    (hnegative : DeniesOrNoData msg → P (validateNegativeDnssecResponse self cfg msg name rclass))
    (hns : ∀ ns, P (self { cfg with dnssecOk := false } ns 1 rclass (depth + 1) false))
    (halias : ∀ target, P (self cfg target rtype rclass (depth + 1) true)) :
    P (handleReply self cfg name rtype rclass depth totalLabels s minimizedName msg) := by
  unfold handleReply
  split
  · rename_i hdenied
    exact hP.bind (hnegative (.inl hdenied)) fun _ => hP.throw _
  split
  · exact hP.pure _
  rename_i hrcode
  unfold classifyReply
  split
  · exact hP.bind (hdirect _) fun _ => hP.pure _
  · split
    · exact hP.bind (halias _) fun _ =>
        hP.bind (cacheDelegation_closed hP _ _ (.inl rfl)) fun _ => hP.pure _
    · exact referral_closed hP _ _ _ _ _ _
        (fun hsoa => hnegative (.inr ⟨not_not.mp hrcode, hsoa⟩)) hns

/-- **One round**: the calls are those of the reply it gets. -/
theorem iteration_closed (name : Bytes) (rtype : UInt16) (depth totalLabels : Nat) (s : Search)
    (hrestart : cfg.dnssecOk = true → ∀ zone, P (self cfg zone 48 rclass 0 true))
    (hns : ∀ ns, P (self { cfg with dnssecOk := false } ns 1 rclass (depth + 1) false))
    (halias : ∀ target, P (self cfg target rtype rclass (depth + 1) true)) :
    P (iteration self cfg name rtype rclass depth totalLabels s) := by
  unfold iteration
  split
  · exact hP.throw _
  · refine hP.bind (call_closed hP (minimizeName_ne_diverge _ _ _)) fun minimizedName =>
      hP.bind (randomId_closed hP) fun id =>
      hP.bind (call_closed hP (encodeMessage_ne_diverge _)) fun query =>
      hP.bind (queryServersConcurrent_closed hP _ _) ?_
    intro reply
    cases reply with
    | none => exact hP.pure _
    | some msg =>
        exact hP.bind (cacheResponse_closed hP _ _ _) fun _ =>
          handleReply_closed hP _ _ _ _ _ _ _
            (fun direct => directAnswer_closed hP _ _ _ _ _ direct hrestart)
            (fun _ => validateNegativeDnssecResponse_closed hP _ _ hrestart) hns halias

/-- A call, from its rounds. -/
theorem resolveRecursiveBody_of_rounds (name : Bytes) (rtype : UInt16) (depth : Nat)
    (qnameMinimize : Bool)
    (hround : depth ≤ maxCnameDepth → ∀ s,
      P (iteration self cfg name rtype rclass depth (countLabels name) s)) :
    P (resolveRecursiveBody self cfg name rtype rclass depth qnameMinimize) := by
  unfold resolveRecursiveBody
  split
  · exact hP.throw _
  rename_i hdepth
  refine hP.bind (lookupDelegation_closed hP name) fun cached => ?_
  generalize startSearch name qnameMinimize cached = s
  induction maxIterations generalizing s with
  | zero => exact hP.throw _
  | succ rounds ih =>
      refine hP.bind (hround (Nat.le_of_not_gt hdepth) s) ?_
      intro result
      cases result with
      | inl s => exact ih s
      | inr result => exact hP.pure _

/-- **Which calls a call of `resolve_recursive` makes**: for an alias and for the
names of nameservers one level deeper, and with DNSSEC for the keys of a zone at
depth 0. -/
theorem resolveRecursiveBody_closed (name : Bytes) (rtype : UInt16) (depth : Nat)
    (qnameMinimize : Bool)
    (hrestart : cfg.dnssecOk = true → ∀ zone, P (self cfg zone 48 rclass 0 true))
    (hns : depth ≤ maxCnameDepth →
      ∀ ns, P (self { cfg with dnssecOk := false } ns 1 rclass (depth + 1) false))
    (halias : depth ≤ maxCnameDepth →
      ∀ target, P (self cfg target rtype rclass (depth + 1) true)) :
    P (resolveRecursiveBody self cfg name rtype rclass depth qnameMinimize) :=
  resolveRecursiveBody_of_rounds hP name rtype depth qnameMinimize fun hle s =>
    iteration_closed hP _ _ _ _ s hrestart (hns hle) (halias hle)

end Body

end Closure

/-! ### The step relation -/

/-- What can happen to the state. -/
inductive Step : St → St → Prop where
  | tick (s : St) : Step s { s with tick := s.tick + 1 }
  | deadline (s : St) (b : Bool) : Step s { s with refreshing := b }
  | act (s : St) (op : SharedOp) : Step s { s with shared := s.shared.apply op }
  | response (s : St) (enableIpv6 : Bool) (now : Nat) (zone : Bytes) (msg : Message) :
      Step s (s.cacheResponse enableIpv6 now zone msg)
  | delegation (s : St) (now : Nat) (zone name : Bytes) (msg : Message) (written : Bytes)
      (servers : List IpAddr) : WrittenZone name msg written →
      Step s (s.cacheDelegation now zone name msg written servers)

/-- Any number of steps. -/
abbrev Steps : St → St → Prop := Relation.ReflTransGen Step

/-- A step records at most one event, at the end. -/
theorem Step.trace_prefix {s s' : St} (h : Step s s') : s.trace <+: s'.trace := by
  cases h with
  | tick => exact List.prefix_refl _
  | deadline => exact List.prefix_refl _
  | act => exact List.prefix_refl _
  | response => exact List.prefix_append _ _
  | delegation => exact List.prefix_append _ _

/-- A run records its events behind those that were there. -/
theorem Steps.trace_prefix {s s' : St} (h : Steps s s') : s.trace <+: s'.trace := by
  induction h with
  | refl => exact List.prefix_refl _
  | tail _ hstep ih => exact ih.trans hstep.trace_prefix

/-- The lookups of `find_cached_delegation` are calls on the delegation cache. -/
theorem findDelegationLoop_steps (now fuel : Nat) (suffix : Bytes) (s : St) :
    Steps s { s with shared := (findDelegationLoop now fuel suffix s.shared).2 } := by
  induction fuel generalizing suffix s with
  | zero => exact .refl
  | succ fuel ih =>
      cases suffix with
      | nil => exact .refl
      | cons first rest =>
          have hget : Steps s
              { s with shared := s.shared.apply (.delegationGet (first :: rest)) } :=
            .single (.act s _)
          unfold findDelegationLoop
          dsimp only
          split
          · exact .refl
          · split
            · split
              · exact hget
              · exact hget.trans (ih _ _)
            · exact hget.trans (ih _ _)

/-- Every basic step is a sequence of steps, and so is every run. -/
theorem keeps_steps_primitives : Primitives fun {α} (m : Resolve α) => Run.Keeps Steps m where
  toClosed := Run.keeps_closed (fun _ => .refl) fun h h' => h.trans h'
  tick := Run.keeps_modify fun s => .single (.tick s)
  deadline b := Run.keeps_modify fun s => .single (.deadline s b)
  act op := Run.keeps_modify fun s => .single (.act s op)
  findDelegation now name := Run.keeps_modify fun s => findDelegationLoop_steps now _ name s
  response enableIpv6 now zone msg :=
    Run.keeps_modify fun s => .single (.response s enableIpv6 now zone msg)
  delegation now zone name msg written servers h :=
    Run.keeps_modify fun s => .single (.delegation s now zone name msg written servers h)
  spawn := by
    intro α m hm env s
    have hstart : Steps s { s with refreshing := false } := .single (.deadline s false)
    refine ⟨?_, ?_⟩
    · intro a s' heq
      unfold Resolver.spawn at heq
      split at heq
      · rename_i b s₁ hrun
        cases heq
        exact (hstart.trans ((hm env _).1 b s₁ hrun)).trans (.single (.deadline s₁ _))
      · rename_i e s₁ hrun
        cases heq
        exact (hstart.trans ((hm env _).2 e s₁ hrun)).trans (.single (.deadline s₁ _))
      · cases heq
        exact .refl
      · cases heq
    · intro e s' heq
      unfold Resolver.spawn at heq
      split at heq <;> cases heq

/-- **Every run of `resolve_recursive` is a sequence of steps.** -/
theorem resolveRecursive_steps (fuel : Nat) (cfg : Config) (name : Bytes) (rtype rclass : UInt16)
    (depth : Nat) (qnameMinimize : Bool) :
    Run.Keeps Steps (resolveRecursive fuel cfg name rtype rclass depth qnameMinimize) := by
  induction fuel generalizing cfg name rtype rclass depth qnameMinimize with
  | zero => exact fun env s => ⟨by rintro _ _ ⟨⟩, by rintro _ _ ⟨⟩⟩
  | succ fuel ih =>
      exact resolveRecursiveBody_closed keeps_steps_primitives name rtype depth qnameMinimize
        (fun _ _ => ih _ _ _ _ _ _) (fun _ _ => ih _ _ _ _ _ _) (fun _ _ => ih _ _ _ _ _ _)

section Rounds

variable (fuel : Nat) (cfg : Config) (name : Bytes) (rtype rclass : UInt16)
  (depth totalLabels : Nat) (s : Search)

/-- So is every round, and what is made of a reply. -/
theorem iteration_steps : Run.Keeps Steps
    (iteration (resolveRecursive fuel) cfg name rtype rclass depth totalLabels s) :=
  iteration_closed keeps_steps_primitives _ _ _ _ _ (fun _ _ => resolveRecursive_steps _ _ _ _ _ _ _)
    (fun _ => resolveRecursive_steps _ _ _ _ _ _ _) fun _ => resolveRecursive_steps _ _ _ _ _ _ _

/-- And so is what is made of a reply. -/
theorem handleReply_steps (minimizedName : Bytes) (msg : Message) : Run.Keeps Steps
    (handleReply (resolveRecursive fuel) cfg name rtype rclass depth totalLabels s minimizedName
      msg) :=
  handleReply_closed keeps_steps_primitives _ _ _ _ _ _ _
    (fun direct => directAnswer_closed keeps_steps_primitives _ _ _ _ _ direct
      fun _ _ => resolveRecursive_steps _ _ _ _ _ _ _)
    (fun _ => validateNegativeDnssecResponse_closed keeps_steps_primitives _ _
      fun _ _ => resolveRecursive_steps _ _ _ _ _ _ _)
    (fun _ => resolveRecursive_steps _ _ _ _ _ _ _) fun _ => resolveRecursive_steps _ _ _ _ _ _ _

end Rounds

/-- **Every run of `resolve_with_ad` is a sequence of steps.** -/
theorem resolveWithAd_steps (fuel : Nat) (cfg : Config) (name : Bytes) (rtype rclass : UInt16) :
    Run.Keeps Steps (resolveWithAd (resolveRecursive fuel) cfg name rtype rclass) :=
  resolveWithAd_closed keeps_steps_primitives name fun _ => resolveRecursive_steps _ _ _ _ _ _ _

end FastDns.Resolver
