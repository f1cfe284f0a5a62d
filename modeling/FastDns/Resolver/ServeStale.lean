/-
Serve-stale (`src/resolver/recursive.rs`: the second part of `resolve_with_ad`).

An expired entry is refreshed before it is served. The source treats every error
of the refresh alike, and `NxDomain` is an error: a name that is denied with
authority keeps its old records. `stale_replaces_failures_iff` says when the
code serves stale records only in place of a failure.
-/

import FastDns.Resolver.Rounds

namespace FastDns.Resolver

open FastDns.Lib FastDns.Dns FastDns.Dnssec

/-! ### The refresh of an expired entry -/

/-- The stale records a question can fall back on and the state in which their
refresh starts, if it comes to that: nothing fresh is cached, and the stale
entry is not too old. -/
def staleStart (key : CacheKey) (env : Env) (s : St) : Option (List ResourceRecord × St) :=
  match cacheLookup key env s with
  | .ok (none, s) =>
      match cacheLookupStale key env s with
      | .ok (some stale, s) => some (stale, s)
      | _ => none
  | _ => none

section Refresh

variable {self : Recursive} {cfg : Config} {name : Bytes} {rtype rclass : UInt16} {env : Env}
  {s s₁ s₂ : St} {stale : List ResourceRecord}

/-- The stale records are taken when the look-up misses and the stale store hits. -/
theorem staleStart_eq_some {key : CacheKey} :
    staleStart key env s = some (stale, s₁) ↔
      ∃ s', cacheLookup key env s = .ok (none, s') ∧
        cacheLookupStale key env s' = .ok (some stale, s₁) := by
  unfold staleStart
  split
  · rename_i s' hmiss
    split
    · rename_i stale' s'' hstale
      simp [hmiss, hstale]
    · rename_i hno
      simp only [hmiss, reduceCtorEq, false_iff, not_exists, not_and]
      rintro s'' ⟨⟩ hstale
      exact hno _ _ hstale
  · rename_i hno
    simp only [reduceCtorEq, false_iff, not_exists, not_and]
    intro s' hmiss
    exact absurd hmiss (hno s')

/-- A result is kept, -/
theorem attempt_of_ok {α : Type} {m : Resolve α} {a : α} (h : m env s₁ = .ok (a, s₂)) :
    attempt m env s₁ = .ok (.ok a, s₂) :=
  Run.handle_of_ok (Run.bind_of_ok h)

/-- and an error is caught. -/
theorem attempt_of_error {α : Type} {m : Resolve α} {e : DnsError}
    (h : m env s₁ = .err (.error e, s₂)) : attempt m env s₁ = .ok (.error e, s₂) := by
  have hbind : (do let a ← m; pure (.ok a) : Resolve (Except DnsError α)) env s₁ =
      .err (.error e, s₂) := by
    rw [Run.bind_apply, h, Outcome.err_bind]
  exact Run.handle_of_err hbind

theorem insertEach_ensures (now : Nat) (records : List ResourceRecord) :
    Run.Ensures env (Shares fun _ => True) (insertEach now records) fun _ => True := by
  induction records with
  | nil => exact Run.ensures_pure trivial
  | cons r records ih => exact Run.ends_bind (act_ensures fun _ _ => trivial) fun _ _ => ih

variable (hstart : staleStart (name, rtype, rclass) env s = some (stale, s₁))

include hstart

/-- A refresh that succeeds replaces the stale records. -/
theorem resolveEncoded_of_refreshed {fresh : Resolution}
    (hrefresh : resolveRecursiveStale self cfg name rtype rclass env s₁ = .ok (fresh, s₂)) :
    ∃ s', resolveEncoded self cfg name rtype rclass env s = .ok ((fresh.records, false), s') := by
  obtain ⟨s₀, hmiss, hstale⟩ := staleStart_eq_some.mp hstart
  have hinsert : Run.Ensures env (Shares fun _ => True)
      (do cacheInsertRecords fresh.records; pure (fresh.records, false))
      fun answer => answer = (fresh.records, false) :=
    Run.ends_bind (Run.ends_bind readClock_ensures fun now _ => insertEach_ensures now _)
      fun _ _ => Run.ensures_pure rfl
  obtain ⟨answer, s', hanswer, _, rfl⟩ := hinsert s₂ trivial
  exact ⟨s', (Run.bind_of_ok hmiss).trans <| (Run.bind_of_ok hstale).trans <|
    (Run.bind_of_ok (attempt_of_ok hrefresh)).trans hanswer⟩

/-- A refresh that ends in an error, whatever the error, leaves the stale records. -/
theorem resolveEncoded_of_error {e : DnsError}
    (hrefresh : resolveRecursiveStale self cfg name rtype rclass env s₁ = .err (.error e, s₂)) :
    resolveEncoded self cfg name rtype rclass env s = .ok ((stale, false), s₂) := by
  obtain ⟨s₀, hmiss, hstale⟩ := staleStart_eq_some.mp hstart
  exact (Run.bind_of_ok hmiss).trans <| (Run.bind_of_ok hstale).trans <|
    Run.bind_of_ok (attempt_of_error hrefresh)

end Refresh

/-! ### When stale records replace failures only -/

/-- The refresh of the question `name` starts with these stale records in the
state `s₁`. -/
def Refreshes (name : Bytes) (rtype rclass : UInt16) (env : Env) (s : St) (encodedName : Bytes)
    (stale : List ResourceRecord) (s₁ : St) : Prop :=
  encodeDomainName name = .ok encodedName ∧
    staleStart (encodedName, rtype, rclass) env s = some (stale, s₁)

/-- `resolve_with_ad` returns what a successful refresh brings, and passes on an
authoritative denial; any other end of the refresh is a failure, for which stale
records may be served. -/
def StaleReplacesFailures (self : Recursive) (cfg : Config) (name : Bytes) (rtype rclass : UInt16)
    (env : Env) (s : St) : Prop :=
  ∀ encodedName stale s₁, Refreshes name rtype rclass env s encodedName stale s₁ →
    match (resolveRecursiveStale self cfg encodedName rtype rclass).result env s₁ with
    | .ok fresh =>
        (resolveWithAd self cfg name rtype rclass).result env s = .ok (fresh.records, false)
    | .err (.error (.nxDomain soaRecords ad)) =>
        (resolveWithAd self cfg name rtype rclass).result env s =
          .err (.error (.nxDomain soaRecords ad))
    | _ => True

/-- Once the name is encoded, the rest is about the encoded name. -/
theorem resolveWithAd_of_encoded {self : Recursive} {cfg : Config} {name encodedName : Bytes}
    (h : encodeDomainName name = .ok encodedName) (rtype rclass : UInt16) (env : Env) (s : St) :
    resolveWithAd self cfg name rtype rclass env s =
      resolveEncoded self cfg encodedName rtype rclass env s := by
  unfold resolveWithAd
  rw [h]
  rfl

/-- **Stale records replace failures only, exactly when no refresh ends in
`NxDomain`**: the name cannot be encoded, a fresh entry is cached, no usable
stale entry is there, or the refresh ends in another way. The refresh is that
of any resolver, so its outcome is arbitrary. -/
theorem stale_replaces_failures_iff (self : Recursive) (cfg : Config) (name : Bytes)
    (rtype rclass : UInt16) (env : Env) (s : St) :
    StaleReplacesFailures self cfg name rtype rclass env s ↔
      ∀ encodedName stale s₁, Refreshes name rtype rclass env s encodedName stale s₁ →
        ∀ soaRecords ad, (resolveRecursiveStale self cfg encodedName rtype rclass).result env s₁ ≠
          .err (.error (.nxDomain soaRecords ad)) := by
  constructor
  · intro hall encodedName stale s₁ hstart soaRecords ad hdenied
    have hpassed := hall encodedName stale s₁ hstart
    rw [hdenied] at hpassed
    obtain ⟨s₂, hrefresh⟩ := Run.result_eq_err.mp hdenied
    obtain ⟨s', hrun⟩ := Run.result_eq_err.mp hpassed
    have hserved := resolveEncoded_of_error hstart.2 hrefresh
    rw [resolveWithAd_of_encoded hstart.1, hserved] at hrun
    cases hrun
  · intro hnone encodedName stale s₁ hstart
    split
    · rename_i fresh hfresh
      obtain ⟨s₂, hrefresh⟩ := Run.result_eq_ok.mp hfresh
      obtain ⟨s', hrun⟩ := resolveEncoded_of_refreshed hstart.2 hrefresh
      exact Run.result_eq_ok.mpr ⟨s', (resolveWithAd_of_encoded hstart.1 _ _ _ _).trans hrun⟩
    · rename_i soaRecords ad hdenied
      exact absurd hdenied (hnone encodedName stale s₁ hstart soaRecords ad)
    · trivial

/-! ### A denied name -/

/-- A resolver that has cached an address of `a.test` at time 0, for a minute. -/
def cachedState : St :=
  { St.initial 10 with
    shared := (Shared.new 10).apply
      (.cache 0 (.insert (sampleAnswer.name, 1, 1) 60 sampleAnswer.rdata 4)) }

/-- Two minutes later the name is denied. -/
def laterDenialEnv : Env :=
  { Env.answering Crypto.rejectAll (fun _ _ => some (replyWith 3 [] [] [])) with
    clock := fun _ => nanos 120 }

/-- `a.test` in text form. -/
def sampleText : Bytes := [0x61, 0x2e, 0x74, 0x65, 0x73, 0x74]

/-- The resolution of `a.test` without DNSSEC. -/
def deniedRun : Resolve (List ResourceRecord × Bool) :=
  resolveWithAd (resolveRecursive 1) ⟨false, false⟩ sampleText 1 1

theorem deniedRun_result :
    deniedRun.result laterDenialEnv cachedState =
      .ok ([{ sampleAnswer with ttl := 0, parsed := none }], false) := by
  decide +kernel

/-- The refresh starts, and ends in `NxDomain`. -/
theorem deniedRun_refresh :
    ∃ stale s₁, Refreshes sampleText 1 1 laterDenialEnv cachedState sampleAnswer.name stale s₁ ∧
      (resolveRecursiveStale (resolveRecursive 1) ⟨false, false⟩ sampleAnswer.name 1 1).result
        laterDenialEnv s₁ = .err (.error (.nxDomain [] false)) := by
  have hencode : encodeDomainName sampleText = .ok sampleAnswer.name := by decide +kernel
  have hdenied : (staleStart (sampleAnswer.name, 1, 1) laterDenialEnv cachedState).map
      (fun start => (resolveRecursiveStale (resolveRecursive 1) ⟨false, false⟩ sampleAnswer.name
        1 1).result laterDenialEnv start.2) = some (.err (.error (.nxDomain [] false))) := by
    decide +kernel
  obtain ⟨⟨stale, s₁⟩, hstart, hrefresh⟩ := Option.map_eq_some_iff.mp hdenied
  exact ⟨stale, s₁, ⟨hencode, hstart⟩, hrefresh⟩

/-- **A denied name is answered with its stale records.** -/
theorem denied_name_is_served_stale :
    ¬ StaleReplacesFailures (resolveRecursive 1) ⟨false, false⟩ sampleText 1 1 laterDenialEnv
      cachedState := by
  intro hall
  obtain ⟨stale, s₁, hstart, hrefresh⟩ := deniedRun_refresh
  have hpassed := hall sampleAnswer.name stale s₁ hstart
  rw [hrefresh] at hpassed
  cases deniedRun_result.symm.trans hpassed

end FastDns.Resolver
