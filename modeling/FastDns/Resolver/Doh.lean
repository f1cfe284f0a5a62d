/-
Resolution over HTTPS (`src/transport/doh.rs`; `resolve_via_doh` and
`resolve_with_fallback` in `src/resolver/recursive.rs`).

The three endpoints are asked in turn, and the first one that answers with a success
status is the one that counts, whatever it answers. Nothing in its answer is compared
with the query but the name and the type of the records that are returned; all its
records go into the caches that the iterative resolver works from.

So an endpoint has the say of a root server from then on (`World.withDoh`), and with
that reading everything that holds of an iterative resolution holds of one with the
fallback: what it returns was given, and what it writes was told
(`fallback_guarantee`).
-/

import FastDns.Resolver.Influence

namespace FastDns.Resolver

open FastDns.Lib FastDns.Dns FastDns.Dnssec

/-! ### Endpoints -/

def cloudflareDoh : String := "https://cloudflare-dns.com/dns-query"
def googleDoh : String := "https://dns.google/dns-query"
def quad9Doh : String := "https://dns.quad9.net/dns-query"

/-- The endpoints of `doh_query_with_fallback`. -/
def dohEndpoints : List String := [cloudflareDoh, googleDoh, quad9Doh]

/-- What a POST leads to. -/
inductive HttpsReply where
  /-- The request fails or times out. -/
  | failed (e : String)
  /-- A status and its text, and the body or why it could not be read. -/
  | response (status : Nat) (text : String) (body : Except String Bytes)

/-- The endpoints of the outside world. -/
structure Https where
  /-- Each reading has its number. -/
  post : Nat → String → Bytes → HttpsReply
  /-- The last error as `{:?}` shows it. -/
  debug : Option DnsError → String

/-- `doh_query`, given what comes of the request. -/
def dohQuery : HttpsReply → Except DnsError Bytes
  | .failed e => .error (.transport ("DoH request failed: " ++ e))
  | .response status text body =>
      if 200 ≤ status ∧ status < 300 then
        match body with
        | .ok bytes => .ok bytes
        | .error e => .error (.transport ("DoH response read failed: " ++ e))
      else .error (.transport ("DoH server returned HTTP " ++ text))

/-- The loop of `doh_query_with_fallback`. -/
def dohLoop (https : Https) (query : Bytes) : List String → Option DnsError → Resolve Bytes
  | [], lastError => fail (.transport ("All DoH endpoints failed: " ++ https.debug lastError))
  | endpoint :: rest, _ => do
      let env ← Run.read
      let n ← nextTick
      actOthers (env.others n)
      match dohQuery (https.post n endpoint query) with
      | .ok response => pure response
      | .error e => dohLoop https query rest (some e)

/-- `doh_query_with_fallback` -/
def dohQueryWithFallback (https : Https) (query : Bytes) : Resolve Bytes :=
  dohLoop https query dohEndpoints none

/-! ### Resolution -/

/-- What `resolve_via_doh` makes of the answer. -/
def dohAnswer (cfg : Config) (encodedName : Bytes) (rtype : UInt16) (response : Message) :
    Resolve (List ResourceRecord) :=
  if response.header.rcode = 3 then fail (.nxDomain [] false)
  else if response.header.rcode ≠ 0 then
    fail (.transport ("DoH returned rcode=" ++ toString response.header.rcode))
  else
    let records := directRecords encodedName rtype response
    if records.isEmpty then fail (.malformed "DoH response had no matching records")
    else do
      cacheInsertRecords records
      cacheResponse cfg [0] response
      pure records

/-- `resolve_via_doh`. For the trace an endpoint speaks for the root zone. -/
def resolveViaDoh (https : Https) (cfg : Config) (name : Bytes) (rtype rclass : UInt16) :
    Resolve (List ResourceRecord) := do
  let encodedName ← call (encodeDomainName name)
  match ← cacheLookup (encodedName, rtype, rclass) with
  | some (records, _) => pure records
  | none => do
      let id ← randomId
      let query ← call (buildQueryStatic encodedName rtype rclass id cfg.dnssecOk false)
      match ← attempt (dohQueryWithFallback https query) with
      | .error e => fail (.transport ("DoH failed: " ++ e.display))
      | .ok data =>
          match ← attempt (call (decodeMessage data)) with
          | .error e => fail (.transport ("DoH response parse failed: " ++ e.display))
          | .ok response => dohAnswer cfg encodedName rtype response

/-- `resolve_with_fallback`. A cancelled resolution is not an error it could catch. -/
def resolveWithFallback (https : Https) (self : Recursive) (cfg : Config) (name : Bytes)
    (rtype rclass : UInt16) : Resolve (List ResourceRecord) := do
  match ← attempt (resolve self cfg name rtype rclass) with
  | .ok records => pure records
  | .error _ => resolveViaDoh https cfg name rtype rclass

/-! ### What an endpoint says -/

/-- The answer of the first endpoint that answers, when the first is asked at `n`. -/
def firstAnswer (https : Https) (query : Bytes) (n : Nat) : List String → Option Bytes
  | [] => none
  | endpoint :: rest =>
      match dohQuery (https.post n endpoint query) with
      | .ok response => some response
      | .error _ => firstAnswer https query (n + 1) rest

/-- The message is the first answer to a query that the resolver puts to endpoints. -/
def Https.Tells (https : Https) (msg : Message) : Prop :=
  ∃ name rtype rclass id dnssecOk query n response,
    buildQueryStatic name rtype rclass id dnssecOk false = .ok query ∧
      firstAnswer https query n dohEndpoints = some response ∧ decodeMessage response = .ok msg

/-- The network in which what an endpoint says counts as an answer of any server. -/
def World.withDoh (W : World) (https : Https) : World := fun query servers msg =>
  W query servers msg ∨ https.Tells msg

theorem Https.Tells.said {https : Https} {msg : Message} (h : https.Tells msg) (W : World) :
    (W.withDoh https).Says msg := by
  obtain ⟨name, rtype, rclass, id, dnssecOk, query, n, response, hquery, hfirst, hmsg⟩ := h
  refine ⟨query, initialRootAddrs, isQuery_of_build hquery, List.cons_ne_nil _ _, learned_roots,
    .inr ⟨name, rtype, rclass, id, dnssecOk, query, n, response, hquery, hfirst, hmsg⟩⟩

section Endpoints

variable {https : Https} {env : Env} {s s' : St} {query response : Bytes}

/-- What the other tasks do reads nothing. -/
theorem actOthers_tick {ops : List SharedOp} (hrun : actOthers ops env s = .ok ((), s')) :
    s'.tick = s.tick := by
  induction ops generalizing s with
  | nil =>
      cases hrun
      rfl
  | cons op ops ih =>
      obtain ⟨_, mid, hact, hrest⟩ := Run.bind_eq_ok.mp hrun
      cases hact
      have htick := ih hrest
      exact htick

/-- An answer of the loop is the first one. -/
theorem dohLoop_first {endpoints : List String} {lastError : Option DnsError}
    (hrun : dohLoop https query endpoints lastError env s = .ok (response, s')) :
    firstAnswer https query s.tick endpoints = some response := by
  induction endpoints generalizing lastError s with
  | nil => cases hrun
  | cons endpoint rest ih =>
      obtain ⟨_, _, hread, hrun⟩ := Run.bind_eq_ok.mp hrun
      cases hread
      obtain ⟨_, ticked, htick, hrun⟩ := Run.bind_eq_ok.mp hrun
      cases htick
      obtain ⟨_, mid, hothers, hrun⟩ := Run.bind_eq_ok.mp hrun
      have hmid : mid.tick = s.tick + 1 := actOthers_tick hothers
      unfold firstAnswer
      cases hreply : dohQuery (https.post s.tick endpoint query) with
      | ok bytes =>
          rw [hreply] at hrun
          cases hrun
          rfl
      | error e =>
          rw [hreply] at hrun
          exact hmid ▸ ih hrun

end Endpoints

section Functions

variable {W : World} {https : Https} {c₀ : Shared} {env env' : Env} {cfg : Config}

/-- A fallible function whose error is looked at. -/
theorem isolated_attemptCall {α : Type} (x : DnsResult α) :
    Isolated W c₀ env env' (attempt (call x)) fun result => ∀ a, result = .ok a → x = .ok a := by
  refine Run.alike_handle (X := fun _ => True) (Run.alike_bind
    (Run.alike_lift fun _ _ => trivial) fun a ha => Run.alike_pure ?_) fun stop _ => ?_
  · rintro b ⟨⟩
    exact ha
  · cases stop with
    | error e => exact Run.alike_pure fun a h => by cases h
    | cancelled => exact Run.alike_throw fun _ _ h => by cases h

variable (h : Shielded W c₀ env env')

include h

theorem isolated_dohLoop (query : Bytes) (endpoints : List String) (lastError : Option DnsError) :
    Isolated W c₀ env env' (dohLoop https query endpoints lastError) fun _ => True := by
  induction endpoints generalizing lastError with
  | nil => exact isolated_fail (blames_of_ne fun _ _ h => by cases h)
  | cons endpoint rest ih =>
      refine Run.alike_read (by simp only [h.indistinct.others]) <|
        Run.alike_bind isolated_nextTick fun n _ =>
        Run.alike_bind (isolated_actOthers (h.within.others n)) fun _ _ => ?_
      split
      · exact Run.alike_pure trivial
      · exact ih _

theorem isolated_dohQueryWithFallback (query : Bytes) :
    Isolated W c₀ env env' (dohQueryWithFallback https query)
      fun response => ∃ n, firstAnswer https query n dohEndpoints = some response :=
  (isolated_dohLoop h query dohEndpoints none).of_returns fun s _ _ hrun =>
    ⟨s.tick, dohLoop_first hrun⟩

theorem isolated_dohAnswer (encodedName : Bytes) (rtype : UInt16) {msg : Message}
    (hsaid : W.Says msg) :
    Isolated W c₀ env env' (dohAnswer cfg encodedName rtype msg)
      fun records => ∀ r ∈ records, W.Gives r := by
  have hrecords : ∀ r ∈ directRecords encodedName rtype msg, W.Sends r :=
    fun r hr => ⟨msg, hsaid, mem_answers (List.mem_of_mem_filter hr)⟩
  unfold dohAnswer
  split
  · refine isolated_fail ?_
    rintro soa ad ⟨⟩ r hr
    cases hr
  · split
    · exact isolated_fail (blames_of_ne fun _ _ h => by cases h)
    · dsimp only
      split
      · exact isolated_fail (blames_of_ne fun _ _ h => by cases h)
      · exact Run.alike_bind (isolated_cacheInsertRecords h hrecords) fun _ _ =>
          Run.alike_bind (isolated_cacheResponse h cfg _ hsaid) fun _ _ =>
          Run.alike_pure fun r hr => (hrecords r hr).gives

theorem isolated_resolveViaDoh (hteller : ∀ msg, https.Tells msg → W.Says msg) (name : Bytes)
    (rtype rclass : UInt16) :
    Isolated W c₀ env env' (resolveViaDoh https cfg name rtype rclass)
      fun records => ∀ r ∈ records, W.Gives r := by
  refine Run.alike_bind (isolated_call (plain_encodeDomainName name)) fun encodedName _ =>
    Run.alike_bind (isolated_cacheLookup h _) fun found hfound => ?_
  cases found with
  | some hit => exact Run.alike_pure (hfound hit.1 hit.2 rfl)
  | none =>
      refine Run.alike_bind (isolated_randomId h) fun id _ =>
        Run.alike_bind (isolated_call (plain_encodeMessage _)) fun query hquery =>
        Run.alike_bind (isolated_attempt (isolated_dohQueryWithFallback h query))
          fun data hdata => ?_
      cases data with
      | error e => exact isolated_fail (blames_of_ne fun _ _ h => by cases h)
      | ok data =>
          refine Run.alike_bind (isolated_attemptCall (decodeMessage data)) fun msg hmsg => ?_
          cases msg with
          | error e => exact isolated_fail (blames_of_ne fun _ _ h => by cases h)
          | ok msg =>
              obtain ⟨n, hfirst⟩ := hdata
              exact isolated_dohAnswer h _ _ (hteller msg
                ⟨_, _, _, _, _, query, n, data, hquery, hfirst, hmsg msg rfl⟩)

theorem isolated_resolveWithFallback (hteller : ∀ msg, https.Tells msg → W.Says msg) (fuel : Nat)
    (name : Bytes) (rtype rclass : UInt16) :
    Isolated W c₀ env env'
      (resolveWithFallback https (resolveRecursive fuel) cfg name rtype rclass)
      fun records => ∀ r ∈ records, W.Gives r := by
  have hresolve : Isolated W c₀ env env' (resolve (resolveRecursive fuel) cfg name rtype rclass)
      fun records => ∀ r ∈ records, W.Gives r :=
    Run.alike_bind (isolated_resolution h fuel cfg name rtype rclass) fun result hresult =>
      Run.alike_pure hresult
  refine Run.alike_bind (isolated_attempt hresolve) fun result hresult => ?_
  cases result with
  | ok records => exact Run.alike_pure hresult
  | error e => exact isolated_resolveViaDoh h hteller name rtype rclass

end Functions

/-- **A resolution with the fallback is one in a network in which the endpoints speak
for the root**: every record it returns was given there, and everything it does to the
shared caches was told there, whether it returns or fails, and with any tasks side by
side of which the same holds. -/
theorem fallback_guarantee {W : World} {https : Https} {env : Env}
    (hin : env.Within (W.withDoh https)) (fuel : Nat) (cfg : Config) (name : Bytes)
    (rtype rclass : UInt16) (s : St) (hsound : (W.withDoh https).Sound s.shared) :
    (resolveWithFallback https (resolveRecursive fuel) cfg name rtype rclass env s).Holds
      (fun result => (∀ r ∈ result.1, (W.withDoh https).Gives r) ∧
        (W.withDoh https).Reaches s.shared result.2.shared ∧
        (W.withDoh https).Sound result.2.shared)
      fun stop => (W.withDoh https).Blames stop.1 ∧
        (W.withDoh https).Reaches s.shared stop.2.shared ∧
        (W.withDoh https).Sound stop.2.shared := by
  have hisolated : Isolated (W.withDoh https) s.shared env env
      (resolveWithFallback https (resolveRecursive fuel) cfg name rtype rclass)
      fun records => ∀ r ∈ records, (W.withDoh https).Gives r :=
    isolated_resolveWithFallback (hin.shielded hsound) (fun msg htells => htells.said W) fuel name
      rtype rclass
  have hends := hisolated.ends s .refl
  exact hends.mono (fun _ hend => ⟨hend.2, hend.1, hend.1.sound hsound⟩)
    fun _ hend => ⟨hend.2, hend.1, hend.1.sound hsound⟩

/-- Every endpoint gives the address of `a.test`. -/
def sampleHttps : Https where
  post _ _ _ :=
    match encodeMessage honestReply with
    | .ok bytes => .response 200 "200 OK" (.ok bytes)
    | _ => .failed "operation timed out"
  debug _ := "None"

/-- No server answers. -/
def unansweredEnv : Env := Env.answering Crypto.rejectAll fun _ _ => none

theorem unansweredEnv_within (W : World) : unansweredEnv.Within W where
  replies _ _ _ _ _ _ _ hreply := by cases hreply
  others _ _ hop := absurd hop List.not_mem_nil

theorem fallback_guarantee_sample :
    (resolveWithFallback sampleHttps (resolveRecursive 1) ⟨false, false⟩
      [0x61, 0x2e, 0x74, 0x65, 0x73, 0x74] 1 1 unansweredEnv (St.initial 10)).Holds
      (fun result => (∀ r ∈ result.1, (honestWorld.withDoh sampleHttps).Gives r) ∧
        (honestWorld.withDoh sampleHttps).Reaches (Shared.new 10) result.2.shared ∧
        (honestWorld.withDoh sampleHttps).Sound result.2.shared)
      fun stop => (honestWorld.withDoh sampleHttps).Blames stop.1 ∧
        (honestWorld.withDoh sampleHttps).Reaches (Shared.new 10) stop.2.shared ∧
        (honestWorld.withDoh sampleHttps).Sound stop.2.shared :=
  fallback_guarantee (unansweredEnv_within _) 1 ⟨false, false⟩ _ 1 1 (St.initial 10) (sound_new 10)

end FastDns.Resolver
