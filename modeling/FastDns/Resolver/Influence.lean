/-
Which servers have a say in an answer (`src/resolver/recursive.rs`:
`resolve_recursive` and `resolve_with_ad`).

The resolver only ever asks servers it has learned of. So it makes no difference
what any other server would answer (`resolution_isolated`), every record it
returns was given by a learned server, whether it comes from the network, from
the record cache or from the stale store (`resolution_provenance`), and so was
everything it writes to the shared caches (`resolution_guarantee`). The last is
also what it relies on: what the other tasks write meanwhile is told in the same
sense, so the three hold of any number of tasks side by side.
-/

import FastDns.Resolver.Disclosure
import FastDns.Resolver.Isolation

namespace FastDns.Resolver

open FastDns.Lib FastDns.Dns FastDns.Dnssec

/-- The addresses of A records that were given. -/
theorem learned_ipv4Addrs {W : World} {records : List ResourceRecord}
    (hrecords : ∀ r ∈ records, W.Sends r) : W.AllLearned (ipv4Addrs records) := by
  intro ip hip
  obtain ⟨r, hr, haddr⟩ := List.mem_filterMap.mp hip
  have hread : recordAddr true r = some ip := by
    unfold recordAddr
    split at haddr
    · rename_i hparsed
      rw [hparsed]
      exact haddr
    · cases haddr
  exact (hrecords r hr).learned hread

/-- A round of the loop ends in learned nameservers, or in records of answers. -/
def World.Round (W : World) : Search ⊕ Resolution → Prop :=
  Sum.elim (fun s => W.AllLearned s.nameservers) W.Answered

/-- Rotating brings no server in. -/
theorem learned_rotate {W : World} {s : Search} (hs : W.AllLearned s.nameservers) :
    W.AllLearned s.rotate.nameservers := by
  unfold Search.rotate
  split
  · intro ip hip
    simp only [List.rotateLeft] at hip
    split at hip
    · exact hs ip hip
    · rcases List.mem_append.mp hip with hip | hip
      · exact hs ip (List.mem_of_mem_drop hip)
      · exact hs ip (List.mem_of_mem_take hip)
  · exact hs

section Functions

variable {W : World} {c₀ : Shared} {env env' : Env} {self : Recursive} {cfg : Config}
  {rclass : UInt16}

/-- The addresses that were resolved are from answers of the nested calls. -/
theorem isolated_resolveNsNamesConcurrently
    (hself : ∀ cfg name rtype rclass depth qnameMinimize,
      Isolated W c₀ env env' (self cfg name rtype rclass depth qnameMinimize) W.Answered)
    (depth : Nat) (names : List Bytes) :
    Isolated W c₀ env env' (resolveNsNamesConcurrently self cfg rclass depth names)
      fun resolved => ∀ entry ∈ resolved, W.AllLearned entry.2 := by
  induction names with
  | nil => exact Run.alike_pure fun entry hentry => absurd hentry List.not_mem_nil
  | cons name rest ih =>
      unfold resolveNsNamesConcurrently
      split
      · exact ih
      · refine Run.alike_bind (isolated_attempt (hself _ _ _ _ _ _)) fun ips hips =>
          Run.alike_bind ih fun others hothers =>
          Run.alike_pure (List.forall_mem_cons.mpr ⟨?_, hothers⟩)
        cases ips with
        | ok result => exact learned_ipv4Addrs hips
        | error e => exact fun ip hip => absurd hip List.not_mem_nil

/-- Resolved addresses join those that are known. -/
theorem isolated_storeNsAddrs {resolved : List (Bytes × List IpAddr)}
    (hresolved : ∀ entry ∈ resolved, W.AllLearned entry.2) {servers : List IpAddr}
    (hservers : W.AllLearned servers) :
    Isolated W c₀ env env' (storeNsAddrs resolved servers) W.AllLearned := by
  induction resolved generalizing servers with
  | nil => exact Run.alike_pure hservers
  | cons entry rest ih =>
      obtain ⟨hentry, hrest⟩ := List.forall_mem_cons.mp hresolved
      unfold storeNsAddrs
      split
      · exact ih hrest hservers
      · exact Run.alike_bind (isolated_act hentry) fun _ _ =>
          ih hrest (learned_append hservers hentry)

variable (h : Shielded W c₀ env env')

include h

/-! ### Without calls of the resolver itself -/

/-- Signatures and keys are taken from the reply, or asked of the same servers. -/
theorem isolated_responseMaterial (name : Bytes) (rtype : UInt16) {nameservers : List IpAddr}
    (hservers : W.AllLearned nameservers) (msg : Message) :
    Isolated W c₀ env env' (responseMaterial name rtype rclass nameservers msg)
      fun _ => True := by
  unfold responseMaterial
  dsimp only
  split
  · refine Run.alike_bind (isolated_queryRd1 h _ _ _ hservers) fun rd1 _ => ?_
    cases rd1 with
    | none => exact Run.alike_pure trivial
    | some rd1 => exact Run.alike_pure trivial
  · exact Run.alike_pure trivial

/-- The check reads the cache only, one suffix after the other. -/
theorem isolated_checkMissingSignature (name : Bytes) (n : Nat) :
    Isolated W c₀ env env' (checkMissingSignature name rclass n) fun _ => True := by
  induction n using Nat.strong_induction_on with
  | _ n ih =>
      match n with
      | 0 => exact Run.alike_pure trivial
      | 1 => exact Run.alike_pure trivial
      | n + 2 =>
          refine Run.alike_bind (isolated_call (plain_namePrefix _ _)) fun zone _ =>
            Run.alike_bind (isolated_resolveDnssec h _ _ _) fun ds _ => ?_
          split
          · exact isolated_fail (blames_of_ne fun _ _ h => by cases h)
          · exact ih (n + 1) (Nat.lt_succ_self _)

/-- The verdict itself is the same, for the primitives are. -/
theorem isolated_applyVerdict (name : Bytes) (totalLabels : Nat) (adBit : Bool)
    (rrsigs dnskeys : List ResourceRecord) (verdict : ValidationResult) :
    Isolated W c₀ env env' (applyVerdict name rclass totalLabels adBit rrsigs dnskeys verdict)
      fun _ => True := by
  cases verdict with
  | secure => exact Run.alike_pure trivial
  | bogus reason => exact isolated_fail (blames_of_ne fun _ _ h => by cases h)
  | insecure => exact Run.alike_pure trivial
  | indeterminate =>
      unfold applyVerdict
      dsimp only
      split
      · exact isolated_fail (blames_of_ne fun _ _ h => by cases h)
      · split
        · exact Run.alike_bind (isolated_checkMissingSignature h name _) fun _ _ =>
            Run.alike_pure trivial
        · exact Run.alike_pure trivial

/-- The walk asks the servers of each zone on the way. -/
theorem isolated_walkChain (rrsigs dnskeys : List ResourceRecord) :
    Isolated W c₀ env env' (walkChain rrsigs dnskeys) fun _ => True := by
  unfold walkChain
  split
  · exact Run.alike_bind (isolated_validateDnssecChain h _ _ _ _ _) fun _ _ =>
      Run.alike_pure trivial
  · exact Run.alike_pure trivial

/-- A referral leads to glue that was sent, or to cached addresses. -/
theorem isolated_referralServers {additionals : List ResourceRecord}
    (hadditionals : ∀ r ∈ additionals, W.Sends r) (nsRecords : List ResourceRecord)
    {servers : List IpAddr} (hservers : W.AllLearned servers) (toResolve : List Bytes) :
    Isolated W c₀ env env' (referralServers cfg additionals nsRecords servers toResolve)
      fun found => W.AllLearned found.1 := by
  induction nsRecords generalizing servers toResolve with
  | nil => exact Run.alike_pure hservers
  | cons ns rest ih =>
      unfold referralServers
      dsimp only
      split
      · exact ih (learned_append hservers (learned_filterMap fun r hr =>
          hadditionals r (List.mem_of_mem_filter hr))) _
      · refine Run.alike_bind (isolated_nsLookup h _) fun cached hcached => ?_
        cases cached with
        | some ips => exact ih (learned_append hservers (hcached ips rfl)) _
        | none => exact ih hservers _

variable (hself : ∀ cfg name rtype rclass depth qnameMinimize,
  Isolated W c₀ env env' (self cfg name rtype rclass depth qnameMinimize) W.Answered)

include hself

/-! ### Entry points -/

/-- Whether from the cache, the stale store or the network, the records were given. -/
theorem isolated_resolveEncoded (encodedName : Bytes) (rtype : UInt16) :
    Isolated W c₀ env env' (resolveEncoded self cfg encodedName rtype rclass)
      fun result => ∀ r ∈ result.1, W.Gives r := by
  have hgives : ∀ {res : Resolution}, W.Answered res → ∀ r ∈ res.records, W.Gives r :=
    fun hres r hr => (hres r hr).gives
  refine Run.alike_bind (isolated_cacheLookup h _) fun found hfound => ?_
  cases found with
  | some hit =>
      have hrecords := hfound hit.1 hit.2 rfl
      dsimp only
      split
      · exact Run.alike_bind (isolated_spawn (hself _ _ _ _ _ _)) fun _ _ =>
          Run.alike_pure hrecords
      · exact Run.alike_bind (Run.alike_pure (Q := fun _ => True) trivial) fun _ _ =>
          Run.alike_pure hrecords
  | none =>
      refine Run.alike_bind (isolated_cacheLookupStale h _) fun stale hstale => ?_
      cases stale with
      | some stale =>
          refine Run.alike_bind (isolated_attempt (isolated_withDeadline (hself _ _ _ _ _ _)))
            fun fresh hfresh => ?_
          cases fresh with
          | ok fresh =>
              exact Run.alike_bind (isolated_cacheInsertRecords h hfresh) fun _ _ =>
                Run.alike_pure (hgives hfresh)
          | error e => exact Run.alike_pure (hstale stale rfl)
      | none =>
          exact Run.alike_bind (hself _ _ _ _ _ _) fun result hresult =>
            Run.alike_bind (isolated_cacheInsertRecords h hresult) fun _ _ =>
              Run.alike_pure (hgives hresult)

theorem isolated_resolveWithAd (name : Bytes) (rtype : UInt16) :
    Isolated W c₀ env env' (resolveWithAd self cfg name rtype rclass)
      fun result => ∀ r ∈ result.1, W.Gives r :=
  Run.alike_bind (isolated_call (plain_encodeDomainName name)) fun _ _ =>
    isolated_resolveEncoded h hself _ rtype

theorem isolated_resolve (name : Bytes) (rtype : UInt16) :
    Isolated W c₀ env env' (resolve self cfg name rtype rclass) fun _ => True :=
  Run.alike_bind (isolated_resolveWithAd h hself name rtype) fun _ _ => Run.alike_pure trivial

/-! ### Answers -/

/-- The SOA records of a denial were sent with it. -/
theorem isolated_validateNegativeDnssecResponse {msg : Message} (hsaid : W.Says msg)
    (name : Bytes) :
    Isolated W c₀ env env' (validateNegativeDnssecResponse self cfg msg name rclass)
      fun negative => ∀ r ∈ negative.soaRecords, W.Gives r := by
  have hsoa : ∀ r ∈ ofType 6 msg.authorities, W.Gives r :=
    fun r hr => hsaid.gives (mem_authorities (mem_ofType hr))
  unfold validateNegativeDnssecResponse
  dsimp only
  split
  · exact Run.alike_pure hsoa
  · refine Run.alike_bind (isolated_attempt (isolated_resolve h hself _ 48)) fun dnskeys _ => ?_
    cases dnskeys with
    | error e => exact Run.alike_pure hsoa
    | ok dnskeys =>
        dsimp only
        split
        · exact Run.alike_pure hsoa
        · exact Run.alike_pure hsoa

/-- With DNSSEC the keys are resolved by a nested call. -/
theorem isolated_answerMaterial (name : Bytes) (rtype : UInt16) {nameservers : List IpAddr}
    (hservers : W.AllLearned nameservers) (msg : Message) :
    Isolated W c₀ env env' (answerMaterial self cfg name rtype rclass nameservers msg)
      fun _ => True := by
  refine Run.alike_bind (isolated_responseMaterial h _ _ hservers _) fun material _ => ?_
  dsimp only
  split
  · refine Run.alike_bind (isolated_attempt (isolated_resolve h hself _ 48)) fun records _ => ?_
    cases records with
    | error e => exact Run.alike_pure trivial
    | ok records =>
        dsimp only
        split
        · exact Run.alike_pure trivial
        · exact Run.alike_bind (isolated_resolveDnssec h _ _ _) fun _ _ => Run.alike_pure trivial
  · exact Run.alike_pure trivial

/-- The records of a direct answer are those of the reply. -/
theorem isolated_directAnswer (name : Bytes) (rtype : UInt16) (totalLabels : Nat) {s : Search}
    (hservers : W.AllLearned s.nameservers) {msg : Message} {direct : List ResourceRecord}
    (hdirect : ∀ r ∈ direct, W.Sends r) :
    Isolated W c₀ env env' (directAnswer self cfg name rtype rclass totalLabels s msg direct)
      W.Answered := by
  unfold directAnswer
  split
  · exact Run.alike_bind (isolated_answerMaterial h hself _ _ hservers _) fun material _ =>
      Run.alike_read (by simp only [h.indistinct.crypto]) <|
      Run.alike_bind (isolated_readWall h) fun wall _ =>
      Run.alike_bind (isolated_applyVerdict h _ _ _ _ _ _) fun ad _ =>
      Run.alike_bind (isolated_walkChain h _ _) fun chain _ =>
      Run.alike_bind (isolated_cacheDelegation h _ _ _ _ hservers) fun _ _ =>
        Run.alike_pure hdirect
  · exact Run.alike_bind (isolated_cacheDelegation h _ _ _ _ hservers) fun _ _ =>
      Run.alike_pure hdirect

/-! ### One round -/

/-- Without data the search ends, or goes on with the same servers. -/
theorem isolated_negativeAnswer (name : Bytes) (totalLabels : Nat) {s : Search}
    (hservers : W.AllLearned s.nameservers) (minimizedName : Bytes) {msg : Message}
    (hsaid : W.Says msg) :
    Isolated W c₀ env env' (negativeAnswer self cfg name rclass totalLabels s minimizedName msg)
      W.Round := by
  unfold negativeAnswer
  split
  · exact Run.alike_bind (isolated_validateNegativeDnssecResponse h hself hsaid _) fun _ _ =>
      Run.alike_pure fun r hr => absurd hr List.not_mem_nil
  · refine Run.alike_pure ?_
    exact learned_rotate hservers

/-- A referral that has servers replaces them by learned ones. -/
theorem isolated_referral (name : Bytes) (depth totalLabels : Nat) {s : Search}
    (hservers : W.AllLearned s.nameservers) (minimizedName : Bytes) {msg : Message}
    (hsaid : W.Says msg) :
    Isolated W c₀ env env' (referral self cfg name rclass depth totalLabels s minimizedName msg)
      W.Round := by
  unfold referral
  split
  · exact isolated_negativeAnswer h hself _ _ hservers _ hsaid
  · refine Run.alike_bind (isolated_referralServers h
      (fun r hr => ⟨msg, hsaid, mem_additionals hr⟩) _
      (fun ip hip => absurd hip List.not_mem_nil) _) fun known hknown =>
      Run.alike_bind (isolated_resolveNsNamesConcurrently hself _ _) fun resolved hresolved =>
      Run.alike_bind (isolated_storeNsAddrs hresolved hknown) fun newServers hnew => ?_
    split
    · exact isolated_negativeAnswer h hself _ _ hservers _ hsaid
    · exact Run.alike_bind (isolated_cacheDelegation h _ _ _ _ hnew) fun _ _ =>
        Run.alike_pure hnew

/-- An alias is sent with the reply, and its target is answered by a nested call. -/
theorem isolated_classifyReply (name : Bytes) (rtype : UInt16) (depth totalLabels : Nat)
    {s : Search} (hservers : W.AllLearned s.nameservers) (minimizedName : Bytes) {msg : Message}
    (hsaid : W.Says msg) :
    Isolated W c₀ env env'
      (classifyReply self cfg name rtype rclass depth totalLabels s minimizedName msg) W.Round := by
  have hdirect : ∀ r ∈ directRecords name rtype msg, W.Sends r :=
    fun r hr => ⟨msg, hsaid, mem_answers (List.mem_of_mem_filter hr)⟩
  unfold classifyReply
  split
  · exact Run.alike_bind (isolated_directAnswer h hself _ _ _ hservers hdirect)
      fun answer hanswer => Run.alike_pure hanswer
  · split
    · rename_i cname target halias
      have hcname : W.Sends cname := by
        refine ⟨msg, hsaid, mem_answers ?_⟩
        unfold aliasOf at halias
        split at halias
        · rename_i first others hfirst
          obtain ⟨_, _, hpair⟩ := Option.map_eq_some_iff.mp halias
          cases hpair
          exact List.mem_of_mem_filter (hfirst ▸ List.mem_cons_self)
        · cases halias
      exact Run.alike_bind (hself _ _ _ _ _ _) fun sub hsub =>
        Run.alike_bind (isolated_cacheDelegation h _ _ _ _ hservers) fun _ _ =>
        Run.alike_pure (List.forall_mem_cons.mpr ⟨hcname, hsub⟩)
    · exact isolated_referral h hself _ _ _ hservers _ hsaid

/-- What is made of a reply depends on the reply, which a learned server has sent. -/
theorem isolated_handleReply (name : Bytes) (rtype : UInt16) (depth totalLabels : Nat)
    {s : Search} (hservers : W.AllLearned s.nameservers) (minimizedName : Bytes) {msg : Message}
    (hsaid : W.Says msg) :
    Isolated W c₀ env env'
      (handleReply self cfg name rtype rclass depth totalLabels s minimizedName msg) W.Round := by
  unfold handleReply
  split
  · refine Run.alike_bind (isolated_validateNegativeDnssecResponse h hself hsaid _)
      fun negative hnegative => isolated_fail ?_
    rintro soa ad ⟨⟩
    exact hnegative
  · split
    · refine Run.alike_pure ?_
      split
      · exact learned_rotate hservers
      · exact hservers
    · exact isolated_classifyReply h hself _ _ _ _ hservers _ hsaid

/-- **One round**: the servers of the search are asked, and only they. -/
theorem isolated_iteration (name : Bytes) (rtype : UInt16) (depth totalLabels : Nat)
    {s : Search} (hservers : W.AllLearned s.nameservers) :
    Isolated W c₀ env env' (iteration self cfg name rtype rclass depth totalLabels s)
      W.Round := by
  unfold iteration
  split
  · exact isolated_fail (blames_of_ne fun _ _ h => by cases h)
  · refine Run.alike_bind (isolated_call (plain_minimizeName _ _ _)) fun minimizedName _ =>
      Run.alike_bind (isolated_randomId h) fun id _ =>
      Run.alike_bind (isolated_call (plain_encodeMessage _)) fun query hquery =>
      Run.alike_bind (isolated_queryServersConcurrent h (isQuery_of_build hquery) hservers)
        fun reply hreply => ?_
    cases reply with
    | none => exact Run.alike_pure (learned_rotate hservers)
    | some msg =>
        exact Run.alike_bind (isolated_cacheResponse h _ _ (hreply msg rfl)) fun _ _ =>
          isolated_handleReply h hself _ _ _ _ hservers _ (hreply msg rfl)

/-! ### Runs -/

/-- The loop, by induction on the rounds that are left. -/
theorem isolated_iterate (name : Bytes) (rtype : UInt16) (depth totalLabels rounds : Nat)
    {s : Search} (hservers : W.AllLearned s.nameservers) :
    Isolated W c₀ env env' (iterate self cfg name rtype rclass depth totalLabels rounds s)
      W.Answered := by
  induction rounds generalizing s with
  | zero => exact isolated_fail (blames_of_ne fun _ _ h => by cases h)
  | succ rounds ih =>
      refine Run.alike_bind (isolated_iteration h hself _ _ _ _ hservers) fun round hround => ?_
      cases round with
      | inl s => exact ih hround
      | inr result => exact Run.alike_pure hround

/-- A call starts with the root servers, or with those of a cached delegation. -/
theorem isolated_resolveRecursiveBody (name : Bytes) (rtype : UInt16) (depth : Nat)
    (qnameMinimize : Bool) :
    Isolated W c₀ env env' (resolveRecursiveBody self cfg name rtype rclass depth qnameMinimize)
      W.Answered := by
  unfold resolveRecursiveBody
  split
  · exact isolated_fail (blames_of_ne fun _ _ h => by cases h)
  · refine Run.alike_bind (isolated_lookupDelegation h name) fun cached hcached =>
      isolated_iterate h hself _ _ _ _ _ ?_
    cases cached with
    | none => exact learned_roots
    | some found => exact hcached found.1 found.2 rfl

end Functions

/-! ### A stranger -/

/-- An address nobody has mentioned. -/
def strangerAddr : IpAddr := .v4 ⟨203, 0, 113, 9⟩

/-- All servers give the address of `a.test`. -/
def honestReply : Message := replyWith 0 [sampleAnswer] [] []

def honestWorld : World := fun _ _ msg => msg = honestReply

def honestEnv : Env := Env.answering Crypto.rejectAll fun _ _ => some honestReply

/-- A server set with the stranger in it denies the name. -/
def strangerEnv : Env := Env.answering Crypto.rejectAll fun _ servers =>
  if strangerAddr ∈ servers then some (replyWith 3 [] [] []) else some honestReply

theorem stranger_not_learned : ¬ honestWorld.Learned strangerAddr := by
  intro hlearned
  cases hlearned with
  | root hroot => exact absurd hroot (by decide)
  | told _ _ _ hmsg hr haddr =>
      subst hmsg
      cases List.mem_singleton.mp hr
      exact absurd haddr (by decide)

theorem honestEnv_within : honestEnv.Within honestWorld where
  replies _ _ _ _ _ _ _ hreply := (Option.some.inj hreply).symm
  others _ _ hop := absurd hop List.not_mem_nil

theorem strangerEnv_indistinct : honestWorld.Indistinct honestEnv strangerEnv where
  crypto := rfl
  clock := rfl
  wall := rfl
  queryId := rfl
  others := rfl
  expires := rfl
  reply _ _ _ _ _ hservers :=
    (if_neg fun hmem => stranger_not_learned (hservers strangerAddr hmem)).symm

/-! ### Runs -/

section Runs

variable {W : World} {c₀ : Shared} {env env' : Env}

/-- **Every run of `resolve_recursive` is isolated.** -/
theorem isolated_resolveRecursive (h : Shielded W c₀ env env') (fuel : Nat) (cfg : Config)
    (name : Bytes) (rtype rclass : UInt16) (depth : Nat) (qnameMinimize : Bool) :
    Isolated W c₀ env env' (resolveRecursive fuel cfg name rtype rclass depth qnameMinimize)
      W.Answered := by
  induction fuel generalizing cfg name rtype rclass depth qnameMinimize with
  | zero => exact ⟨fun _ _ => rfl, fun _ _ => trivial⟩
  | succ fuel ih => exact isolated_resolveRecursiveBody h ih name rtype depth qnameMinimize

/-- One resolution is isolated. -/
theorem isolated_resolution (h : Shielded W c₀ env env') (fuel : Nat) (cfg : Config)
    (name : Bytes) (rtype rclass : UInt16) :
    Isolated W c₀ env env' (resolveWithAd (resolveRecursive fuel) cfg name rtype rclass)
      fun result => ∀ r ∈ result.1, W.Gives r :=
  isolated_resolveWithAd h (isolated_resolveRecursive h fuel) name rtype

/-- Nothing is different from itself. -/
theorem Env.Within.shielded (hin : env.Within W) (hsound : W.Sound c₀) :
    Shielded W c₀ env env :=
  ⟨hsound, hin, ⟨rfl, rfl, rfl, rfl, rfl, rfl, fun _ _ _ _ _ _ => rfl⟩⟩

/-- **Servers that were not learned have no say**: if two environments differ in
their answers only, every resolution is the same in both, with the same result,
the same caches and the same trace. -/
theorem resolution_isolated (hin : env.Within W) (hsame : W.Indistinct env env') (fuel : Nat)
    (cfg : Config) (name : Bytes) (rtype rclass : UInt16) (s : St) (hsound : W.Sound s.shared) :
    resolveWithAd (resolveRecursive fuel) cfg name rtype rclass env s =
      resolveWithAd (resolveRecursive fuel) cfg name rtype rclass env' s :=
  (isolated_resolution ⟨hsound, hin, hsame⟩ fuel cfg name rtype rclass).same s .refl

/-- The stranger cannot deny `a.test` to a new resolver. -/
theorem resolution_isolated_stranger :
    resolveWithAd (resolveRecursive 1) ⟨false, false⟩ [0x61, 0x2e, 0x74, 0x65, 0x73, 0x74] 1 1
        honestEnv (St.initial 10) =
      resolveWithAd (resolveRecursive 1) ⟨false, false⟩ [0x61, 0x2e, 0x74, 0x65, 0x73, 0x74] 1 1
        strangerEnv (St.initial 10) :=
  resolution_isolated honestEnv_within strangerEnv_indistinct 1 ⟨false, false⟩ _ 1 1
    (St.initial 10) (sound_new 10)

/-- **Every record was given by a learned server**, those of an answer as well as
those of a denial. -/
theorem resolution_provenance (hin : env.Within W) (fuel : Nat) (cfg : Config) (name : Bytes)
    (rtype rclass : UInt16) (s : St) (hsound : W.Sound s.shared) :
    (resolveWithAd (resolveRecursive fuel) cfg name rtype rclass env s).Holds
      (fun result => ∀ r ∈ result.1.1, W.Gives r)
      fun stop => ∀ soa ad, stop.1 = .error (.nxDomain soa ad) → ∀ r ∈ soa, W.Gives r :=
  ((isolated_resolution (hin.shielded hsound) fuel cfg name rtype rclass).ends s .refl).mono
    (fun _ hend => hend.2) fun _ hend => hend.2

/-- The address of `a.test` is given by a root server. -/
theorem resolution_provenance_sample :
    (resolveWithAd (resolveRecursive 1) ⟨false, false⟩ [0x61, 0x2e, 0x74, 0x65, 0x73, 0x74] 1 1
      honestEnv (St.initial 10)).Holds (fun result => ∀ r ∈ result.1.1, honestWorld.Gives r)
      fun stop => ∀ soa ad, stop.1 = .error (.nxDomain soa ad) →
        ∀ r ∈ soa, honestWorld.Gives r :=
  resolution_provenance honestEnv_within 1 ⟨false, false⟩ _ 1 1 (St.initial 10) (sound_new 10)

/-- **What a resolution does to the shared caches is told**, whether it returns or
fails, and with it everything other tasks do meanwhile. -/
theorem resolution_guarantee (hin : env.Within W) (fuel : Nat) (cfg : Config) (name : Bytes)
    (rtype rclass : UInt16) (s : St) (hsound : W.Sound s.shared) :
    (resolveWithAd (resolveRecursive fuel) cfg name rtype rclass env s).Holds
      (fun result => W.Reaches s.shared result.2.shared ∧ W.Sound result.2.shared)
      fun stop => W.Reaches s.shared stop.2.shared ∧ W.Sound stop.2.shared :=
  ((isolated_resolution (hin.shielded hsound) fuel cfg name rtype rclass).ends s .refl).mono
    (fun _ hend => ⟨hend.1, hend.1.sound hsound⟩) fun _ hend => ⟨hend.1, hend.1.sound hsound⟩

theorem resolution_guarantee_sample :
    (resolveWithAd (resolveRecursive 1) ⟨false, false⟩ [0x61, 0x2e, 0x74, 0x65, 0x73, 0x74] 1 1
      honestEnv (St.initial 10)).Holds
      (fun result => honestWorld.Reaches (Shared.new 10) result.2.shared ∧
        honestWorld.Sound result.2.shared)
      fun stop => honestWorld.Reaches (Shared.new 10) stop.2.shared ∧
        honestWorld.Sound stop.2.shared :=
  resolution_guarantee honestEnv_within 1 ⟨false, false⟩ _ 1 1 (St.initial 10) (sound_new 10)

/-- **What a call has done to the shared caches is told at every round it reaches**,
also if it panics in a later one or never ends, and the servers it will ask there are
learned. -/
theorem Reaches.told (hin : env.Within W) {fuel : Nat} {cfg : Config} {name : Bytes}
    {rtype rclass : UInt16} {depth : Nat} {s₀ s : Search} {st₀ st : St} {kinds : List RoundKind}
    (hsound : W.Sound st₀.shared) (hservers : W.AllLearned s₀.nameservers)
    (h : Reaches (resolveRecursive fuel) cfg name rtype rclass depth env s₀ st₀ kinds s st) :
    W.Reaches st₀.shared st.shared ∧ W.AllLearned s.nameservers := by
  induction h with
  | start => exact ⟨.refl, hservers⟩
  | @round kinds s s' st st' qname reply kind hreached hstep ih =>
      obtain ⟨htold, hlearned⟩ := ih
      have hshielded := hin.shielded (htold.sound hsound)
      have hround : Isolated W st.shared env env (iteration (resolveRecursive fuel) cfg name rtype
          rclass depth (countLabels name) s) W.Round :=
        isolated_iteration hshielded (isolated_resolveRecursive hshielded fuel) _ _ _ _ hlearned
      have hends := hround.ends st .refl
      rw [hstep.runs] at hends
      exact ⟨htold.trans hends.1, hends.2⟩

end Runs

end FastDns.Resolver
