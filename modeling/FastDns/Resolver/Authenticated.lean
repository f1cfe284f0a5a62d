/-
Where the result of `resolve_recursive` and its AD flag come from
(`src/resolver/recursive.rs`: the validation of a direct answer, the CNAME
chase and the negative answer).

`Justified` is the specification of a result: which reply it was read from and
what its flag rests on. Every result of every run is justified
(`resolveRecursive_justified`); the statements about the flag are read off from
that. The verdict on the chain of trust is computed and dropped, and a CNAME is
never put before the validator.
-/

import FastDns.Resolver.Rounds
import FastDns.Resolver.Steps

namespace FastDns.Resolver

open FastDns.Lib FastDns.Dns FastDns.Dnssec

/-! ### Justified results -/

/-- The message is a reply of the upstream servers. -/
def Env.Sends (env : Env) (msg : Message) : Prop :=
  ∃ n query servers, env.reply n query servers = some msg

/-- The verdict on the chain of trust is the one of `validate_dnssec_chain` for
the owner of the first key; there is none if keys or signatures over them are
missing. -/
def Evidence.ChainWalked (env : Env) (ev : Evidence) : Prop :=
  match ev.chain with
  | none => ev.dnskeys = [] ∨ ∀ r ∈ ev.rrsigs, rrsigTypeCovered r ≠ some 48
  | some verdict =>
      ∃ key rest rrsig, ev.dnskeys = key :: rest ∧ rrsig ∈ ev.rrsigs ∧
        rrsigTypeCovered rrsig = some 48 ∧
        ∃ s s', validateDnssecChain chainLevels key.name ev.dnskeys ev.rrsigs
          ((rrsigSignerName rrsig).getD key.name) env s = .ok (verdict, s')

/-- What `validate_dnssec` says about records under this evidence. -/
def Evidence.verdict (env : Env) (cfg : Config) (ev : Evidence) (records : List ResourceRecord) :
    ValidationResult :=
  validateDnssec env.crypto ev.wall cfg.dnssecOk records ev.rrsigs ev.dnskeys

/-- Direct answers to a question of this type go through the validator. -/
def validates (cfg : Config) (rtype : UInt16) : Bool := cfg.dnssecOk && !isDnssecMeta rtype

/-- The results the upstream servers can bring about for a name. -/
inductive Justified (env : Env) (cfg : Config) (rtype : UInt16) : Bytes → Resolution → Prop where
  | unvalidated {name : Bytes} {msg : Message} (hsends : env.Sends msg)
      (hanswer : directRecords name rtype msg ≠ []) (hoff : validates cfg rtype = false) :
      Justified env cfg rtype name (.direct (directRecords name rtype msg) false none)
  | validated {name : Bytes} {msg : Message} {ev : Evidence} (hsends : env.Sends msg)
      (hanswer : directRecords name rtype msg ≠ []) (hon : validates cfg rtype = true)
      (hchain : ev.ChainWalked env) :
      Justified env cfg rtype name (.direct (directRecords name rtype msg)
        (decide (ev.verdict env cfg (directRecords name rtype msg) = .secure)) (some ev))
  | chased {name target : Bytes} {msg : Message} {cname : ResourceRecord} {res : Resolution}
      (hsends : env.Sends msg) (hrcode : msg.header.rcode = 0)
      (hnone : directRecords name rtype msg = []) (halias : aliasOf name msg = some (cname, target))
      (htarget : Justified env cfg rtype target res) :
      Justified env cfg rtype name (.alias cname none res res.ad)
  | nodata {name qname : Bytes} {msg : Message} {negative : Negative} {revealed : Nat}
      (hsends : env.Sends msg) (hsoa : ofType 6 msg.authorities ≠ [])
      (hflag : negative.ad = true ↔ negative.verdict = some .secure) :
      Justified env cfg rtype name (.nodata negative.ad negative.verdict qname revealed)

/-! ### What every branch gives, every run gives -/

/-- A relation between a question (name and depth) and a result that holds of
every branch in which `resolve_recursive` returns, on a reply with `Sent`. -/
structure Branches (env : Env) (Sent : Message → Prop) (cfg : Config) (rtype : UInt16)
    (J : Bytes → Nat → Resolution → Prop) : Prop where
  unvalidated {name : Bytes} {depth : Nat} {msg : Message} : depth ≤ maxCnameDepth →
    Sent msg → directRecords name rtype msg ≠ [] → validates cfg rtype = false →
    J name depth (.direct (directRecords name rtype msg) false none)
  validated {name : Bytes} {depth : Nat} {msg : Message} {ev : Evidence} :
    depth ≤ maxCnameDepth → Sent msg → directRecords name rtype msg ≠ [] →
    validates cfg rtype = true → ev.ChainWalked env →
    J name depth (.direct (directRecords name rtype msg)
      (decide (ev.verdict env cfg (directRecords name rtype msg) = .secure)) (some ev))
  chased {name target : Bytes} {depth : Nat} {msg : Message} {cname : ResourceRecord}
    {res : Resolution} : depth ≤ maxCnameDepth → Sent msg → msg.header.rcode = 0 →
    directRecords name rtype msg = [] → aliasOf name msg = some (cname, target) →
    J target (depth + 1) res → J name depth (.alias cname none res res.ad)
  nodata {name qname : Bytes} {depth : Nat} {msg : Message} {negative : Negative}
    {revealed : Nat} : depth ≤ maxCnameDepth → Sent msg → ofType 6 msg.authorities ≠ [] →
    (negative.ad = true ↔ negative.verdict = some .secure) →
    J name depth (.nodata negative.ad negative.verdict qname revealed)

section Returns

variable {env : Env} {cfg : Config} {rtype rclass : UInt16} {name : Bytes} {depth : Nat}
  {self : Recursive} {Sent : Message → Prop} {J : Bytes → Nat → Resolution → Prop}

/-- Every reply is one that the servers send. -/
theorem queryServersConcurrent_returns (query : Bytes) (servers : List IpAddr) :
    Run.Returns env (queryServersConcurrent query servers)
      fun reply => ∀ msg, reply = some msg → env.Sends msg := by
  intro s reply s' hrun msg hmsg
  obtain ⟨n, hreply⟩ := queryServersConcurrent_answers query servers s reply s' hrun msg hmsg
  exact ⟨n, query, servers, hreply⟩

/-- The verdict on the chain is the one of the walk, and it is computed from these keys.
-/
theorem walkChain_returns (rrsigs dnskeys : List ResourceRecord) (wall : UInt32) :
    Run.Returns env (walkChain rrsigs dnskeys)
      fun chain => Evidence.ChainWalked env ⟨rrsigs, dnskeys, wall, chain⟩ := by
  unfold walkChain
  cases dnskeys with
  | nil => exact Run.returns_pure (.inl rfl)
  | cons key rest =>
      cases hcovers : rrsigs.filter fun r => rrsigTypeCovered r = some 48 with
      | nil =>
          refine Run.returns_pure (.inr fun r hr htype => ?_)
          have hmem : r ∈ rrsigs.filter fun r => rrsigTypeCovered r = some 48 :=
            List.mem_filter.mpr ⟨hr, decide_eq_true htype⟩
          rw [hcovers] at hmem
          cases hmem
      | cons rrsig others =>
          intro s chain s' heq
          obtain ⟨⟨verdict, s₁⟩, hverdict, hpure⟩ := Outcome.bind_eq_ok.mp heq
          cases hpure
          have hmem : rrsig ∈ rrsigs.filter fun r => rrsigTypeCovered r = some 48 := by
            rw [hcovers]
            exact List.mem_cons_self
          obtain ⟨hmem, htype⟩ := List.mem_filter.mp hmem
          exact ⟨key, rest, rrsig, rfl, hmem, of_decide_eq_true htype, s, s', hverdict⟩

/-- Only `Secure` raises a flag that is not raised yet. -/
theorem applyVerdict_returns (totalLabels : Nat) (rrsigs dnskeys : List ResourceRecord)
    (verdict : ValidationResult) :
    Run.Returns env (applyVerdict name rclass totalLabels false rrsigs dnskeys verdict)
      fun ad => ad = decide (verdict = .secure) := by
  cases verdict with
  | secure => exact Run.returns_pure rfl
  | bogus reason => exact Run.returns_throw
  | insecure => exact Run.returns_pure rfl
  | indeterminate =>
      unfold applyVerdict
      dsimp only
      split
      · exact Run.returns_throw
      · split
        · exact Run.returns_bind' fun _ => Run.returns_pure rfl
        · exact Run.returns_pure rfl

/-- The flag is the verdict of the validator on what was obtained. -/
theorem directAnswer_returns (hJ : Branches env Sent cfg rtype J) {s : Search} {msg : Message}
    (totalLabels : Nat) (hdepth : depth ≤ maxCnameDepth) (hflag : s.adBit = false)
    (hsends : Sent msg) (hanswer : directRecords name rtype msg ≠ []) :
    Run.Returns env (directAnswer self cfg name rtype rclass totalLabels s msg
      (directRecords name rtype msg)) (J name depth) := by
  unfold directAnswer
  rw [hflag]
  split
  · rename_i hon
    refine Run.returns_bind' ?_
    intro material
    obtain ⟨rrsigs, dnskeys⟩ := material
    refine Run.returns_bind Run.returns_read ?_
    rintro _ rfl
    refine Run.returns_bind' ?_
    intro wall
    refine Run.returns_bind (applyVerdict_returns totalLabels rrsigs dnskeys _) ?_
    rintro _ rfl
    refine Run.returns_bind (walkChain_returns rrsigs dnskeys wall) ?_
    intro chain hchain
    refine Run.returns_bind' fun _ => Run.returns_pure ?_
    exact hJ.validated hdepth hsends hanswer hon hchain
  · rename_i hoff
    refine Run.returns_bind' fun _ => Run.returns_pure ?_
    exact hJ.unvalidated hdepth hsends hanswer (Bool.eq_false_of_not_eq_true hoff)

/-- The flag of a denial is its verdict. -/
theorem validateNegativeDnssecResponse_returns (msg : Message) :
    Run.Returns env (validateNegativeDnssecResponse self cfg msg name rclass)
      fun negative => negative.ad = true ↔ negative.verdict = some .secure := by
  unfold validateNegativeDnssecResponse
  dsimp only
  split
  · exact Run.returns_pure (by simp)
  · refine Run.returns_bind' ?_
    intro dnskeys
    cases dnskeys with
    | error e => exact Run.returns_pure (by simp)
    | ok dnskeys =>
        dsimp only
        split
        · exact Run.returns_pure (by simp)
        · exact Run.returns_pure (by simp)

/-- What a round of the loop may end with: a search that has not raised the
flag, or a result. -/
def RoundGives (J : Bytes → Nat → Resolution → Prop) (name : Bytes) (depth : Nat) :
    Search ⊕ Resolution → Prop :=
  Sum.elim (fun s => s.adBit = false) (J name depth)

/-- No data ends with the verdict on the denial. -/
theorem negativeAnswer_returns (hJ : Branches env Sent cfg rtype J) {s : Search} {msg : Message}
    (totalLabels : Nat) (minimizedName : Bytes) (hdepth : depth ≤ maxCnameDepth)
    (hflag : s.adBit = false) (hsends : Sent msg) :
    Run.Returns env (negativeAnswer self cfg name rclass totalLabels s minimizedName msg)
      (RoundGives J name depth) := by
  unfold negativeAnswer
  split
  · rename_i hsoa
    refine Run.returns_bind (validateNegativeDnssecResponse_returns msg) ?_
    intro negative hneg
    refine Run.returns_pure ?_
    rw [hflag, Bool.false_or]
    exact hJ.nodata hdepth hsends (by simpa using hsoa) hneg
  · refine Run.returns_pure ?_
    exact (rotate_adBit _).trans hflag

/-- A followed referral does not touch the flag. -/
theorem referral_returns (hJ : Branches env Sent cfg rtype J) {s : Search} {msg : Message}
    (totalLabels : Nat) (minimizedName : Bytes) (hdepth : depth ≤ maxCnameDepth)
    (hflag : s.adBit = false) (hsends : Sent msg) :
    Run.Returns env (referral self cfg name rclass depth totalLabels s minimizedName msg)
      (RoundGives J name depth) := by
  unfold referral
  split
  · exact negativeAnswer_returns hJ totalLabels minimizedName hdepth hflag hsends
  · refine Run.returns_bind' fun servers => Run.returns_bind' fun resolved =>
      Run.returns_bind' ?_
    intro newServers
    split
    · exact negativeAnswer_returns hJ totalLabels minimizedName hdepth hflag hsends
    · exact Run.returns_bind' fun _ => Run.returns_pure hflag

section Replies

variable (hJ : Branches env Sent cfg rtype J) (hself : ∀ target,
  Run.Returns env (self cfg target rtype rclass (depth + 1) true) (J target (depth + 1)))

include hJ hself

/-- The three kinds of replies with RCODE 0. -/
theorem classifyReply_returns {s : Search} {msg : Message} (totalLabels : Nat)
    (minimizedName : Bytes) (hdepth : depth ≤ maxCnameDepth) (hflag : s.adBit = false)
    (hsends : Sent msg)
    (hrcode : msg.header.rcode = 0) :
    Run.Returns env (classifyReply self cfg name rtype rclass depth totalLabels s minimizedName msg)
      (RoundGives J name depth) := by
  unfold classifyReply
  split
  · rename_i hanswer
    refine Run.returns_bind
      (directAnswer_returns hJ totalLabels hdepth hflag hsends (by simpa using hanswer)) ?_
    intro res hres
    exact Run.returns_pure hres
  · rename_i hnone
    cases halias : aliasOf name msg with
    | none => exact referral_returns hJ totalLabels minimizedName hdepth hflag hsends
    | some found =>
        obtain ⟨cname, target⟩ := found
        refine Run.returns_bind (hself target) ?_
        intro res hres
        refine Run.returns_bind' fun _ => Run.returns_pure ?_
        rw [hflag, Bool.false_or]
        exact hJ.chased hdepth hsends hrcode (by simpa using hnone) halias hres

/-- Other codes end the call in an error, or try again. -/
theorem handleReply_returns {s : Search} {msg : Message} (totalLabels : Nat)
    (minimizedName : Bytes) (hdepth : depth ≤ maxCnameDepth) (hflag : s.adBit = false)
    (hsends : Sent msg) :
    Run.Returns env (handleReply self cfg name rtype rclass depth totalLabels s minimizedName msg)
      (RoundGives J name depth) := by
  unfold handleReply
  split
  · exact Run.returns_bind' fun _ => Run.returns_throw
  split
  · refine Run.returns_pure ?_
    split
    · exact (rotate_adBit s).trans hflag
    · exact hflag
  · rename_i hrcode
    exact classifyReply_returns hJ hself totalLabels minimizedName hdepth hflag hsends
      (not_not.mp hrcode)

end Replies

variable (hJ : Branches env env.Sends cfg rtype J) (hself : ∀ target,
  Run.Returns env (self cfg target rtype rclass (depth + 1) true) (J target (depth + 1)))

include hJ hself

/-- **One round** ends with the flag not raised, or in a branch. -/
theorem iteration_returns {s : Search} (totalLabels : Nat) (hdepth : depth ≤ maxCnameDepth)
    (hflag : s.adBit = false) :
    Run.Returns env (iteration self cfg name rtype rclass depth totalLabels s)
      (RoundGives J name depth) := by
  unfold iteration
  split
  · exact Run.returns_throw
  · refine Run.returns_bind' fun minimizedName => Run.returns_bind' fun id =>
      Run.returns_bind' ?_
    intro query
    refine Run.returns_bind (queryServersConcurrent_returns query _) ?_
    intro reply hreply
    cases reply with
    | none => exact Run.returns_pure ((rotate_adBit s).trans hflag)
    | some msg =>
        exact Run.returns_bind' fun _ =>
          handleReply_returns hJ hself totalLabels minimizedName hdepth hflag (hreply msg rfl)

/-- The call, from its rounds. -/
theorem resolveRecursiveBody_returns (qnameMinimize : Bool) :
    Run.Returns env (resolveRecursiveBody self cfg name rtype rclass depth qnameMinimize)
      (J name depth) := by
  unfold resolveRecursiveBody
  split
  · exact Run.returns_throw
  · rename_i hdepth
    refine Run.returns_bind' ?_
    intro cached
    refine iterate_returns
      (fun s hflag => iteration_returns hJ hself _ (Nat.not_lt.mp hdepth) hflag) _ ?_
    cases cached with
    | none => rfl
    | some found => rfl

end Returns

/-- **What holds of every branch holds of every result of every run**, whatever
the servers answer. -/
theorem resolveRecursive_returns {env : Env} {cfg : Config} {rtype : UInt16}
    {J : Bytes → Nat → Resolution → Prop} (hJ : Branches env env.Sends cfg rtype J)
    (rclass : UInt16) (fuel : Nat) (name : Bytes) (depth : Nat) (qnameMinimize : Bool) :
    Run.Returns env (resolveRecursive fuel cfg name rtype rclass depth qnameMinimize)
      (J name depth) := by
  induction fuel generalizing name depth qnameMinimize with
  | zero =>
      intro s res s' heq
      cases heq
  | succ fuel ih =>
      exact resolveRecursiveBody_returns hJ (fun target => ih target (depth + 1) true)
        qnameMinimize

/-- Each branch justifies its result by definition. -/
theorem branches_justified (env : Env) (cfg : Config) (rtype : UInt16) :
    Branches env env.Sends cfg rtype fun name _ => Justified env cfg rtype name where
  unvalidated := fun _ => .unvalidated
  validated := fun _ => .validated
  chased := fun _ => .chased
  nodata := fun _ => .nodata

/-- **Every result of every run is justified**, whatever the servers answer. -/
theorem resolveRecursive_justified (env : Env) (cfg : Config) (rtype rclass : UInt16)
    (fuel : Nat) (name : Bytes) (depth : Nat) (qnameMinimize : Bool) :
    Run.Returns env (resolveRecursive fuel cfg name rtype rclass depth qnameMinimize)
      (Justified env cfg rtype name) :=
  resolveRecursive_returns (branches_justified env cfg rtype) rclass fuel name depth qnameMinimize

/-! ### The flag of a direct answer -/

/-- **The flag of a direct answer is the verdict of `validate_dnssec`**, on the
signatures and keys that were obtained. The chain of trust is walked whenever
there is a signature over the keys, and has no part in it. -/
theorem direct_answer_ad_iff (fuel : Nat) (cfg : Config) (name : Bytes) (rtype rclass : UInt16)
    (depth : Nat) (qnameMinimize : Bool) (env : Env) (s s' : St) (records : List ResourceRecord)
    (ad : Bool) (evidence : Option Evidence) (hok : cfg.dnssecOk = true)
    (hrun : resolveRecursive fuel cfg name rtype rclass depth qnameMinimize env s =
      .ok (.direct records ad evidence, s')) :
    (ad = true ↔ ∃ ev, evidence = some ev ∧ ev.rrsigs ≠ [] ∧ ev.dnskeys ≠ [] ∧
      ev.verdict env cfg records = .secure) ∧
    (evidence = none ↔ isDnssecMeta rtype = true) ∧
    ∀ ev, evidence = some ev → ev.ChainWalked env := by
  have hjust := resolveRecursive_justified env cfg rtype rclass fuel name depth qnameMinimize
    s _ s' hrun
  cases hjust with
  | unvalidated hsends hanswer hoff =>
      have hmeta : isDnssecMeta rtype = true := by simpa [validates, hok] using hoff
      simp [hmeta]
  | @validated _ msg ev hsends hanswer hon hchain =>
      have hmeta : isDnssecMeta rtype = false := by simpa [validates, hok] using hon
      refine ⟨?_, by simp [hmeta], ?_⟩
      · rw [decide_eq_true_eq]
        constructor
        · intro hsecure
          obtain ⟨_, hrrsigs, hdnskeys, _⟩ := validateDnssec_eq_secure.mp hsecure
          exact ⟨ev, rfl, hrrsigs, hdnskeys, hsecure⟩
        · rintro ⟨_, ⟨⟩, _, _, hsecure⟩
          exact hsecure
      · rintro _ ⟨⟩
        exact hchain

/-- A signature record that names the type DNSKEY and ends there. -/
def shortRrsig : ResourceRecord := ⟨[0], 46, 1, 60, 2, [0, 48], none⟩

/-- Every query is answered with an address of `a.test`, the short signature and
a key that nobody has verified. -/
def untrustedKeyEnv : Env := .answering Crypto.rejectAll fun _ _ =>
  some (replyWith 0 [sampleAnswer, shortRrsig, sampleKeyRecord] [] [])

/-- The resolution of `a.test` with DNSSEC. -/
def untrustedKeyRun : Resolve Resolution :=
  resolveRecursive 1 ⟨false, true⟩ sampleAnswer.name 1 1 0 true

/-- What the resolution of `a.test` rests on. -/
def untrustedKeyEvidence : Evidence :=
  ⟨[shortRrsig], [sampleKeyRecord], 0, some (.bogus "Root DNSKEY does not match trust anchor")⟩

theorem untrustedKeyRun_result :
    untrustedKeyRun.result untrustedKeyEnv (.initial 10) =
      .ok (.direct [sampleAnswer] true (some untrustedKeyEvidence)) := by
  decide +kernel

theorem untrustedKeyRun_ad_iff :
    (∃ ev, some untrustedKeyEvidence = some ev ∧ ev.rrsigs ≠ [] ∧ ev.dnskeys ≠ [] ∧
      ev.verdict untrustedKeyEnv ⟨false, true⟩ [sampleAnswer] = .secure) ∧
    untrustedKeyEvidence.ChainWalked untrustedKeyEnv := by
  obtain ⟨s', hrun⟩ := Run.result_eq_ok.mp untrustedKeyRun_result
  obtain ⟨hflag, _, hchain⟩ := direct_answer_ad_iff _ _ _ _ _ _ _ _ _ _ _ _ _ rfl hrun
  exact ⟨hflag.mp rfl, hchain _ rfl⟩

/-- **The flag is raised although the chain of trust fails**: the key is not the
one of the root. -/
theorem ad_with_bogus_chain :
    ∃ ev s', untrustedKeyRun untrustedKeyEnv (.initial 10) =
        .ok (.direct [sampleAnswer] true (some ev), s') ∧ ev.chain ≠ some .secure := by
  obtain ⟨s', hrun⟩ := Run.result_eq_ok.mp untrustedKeyRun_result
  exact ⟨untrustedKeyEvidence, s', hrun, by decide⟩

/-! ### The flag of an answer with aliases -/

/-- Every RRset of the result was validated: each alias, and the records or the
denial at the end. -/
def Resolution.Validated (env : Env) (cfg : Config) : Resolution → Prop
  | .direct records _ (some ev) => ev.verdict env cfg records = .secure
  | .alias cname (some ev) target _ =>
      ev.verdict env cfg [cname] = .secure ∧ target.Validated env cfg
  | .nodata _ denial _ _ => denial = some .secure
  | _ => False

/-- The flag is raised for validated results only. -/
def Resolution.FlagSound (env : Env) (cfg : Config) (res : Resolution) : Prop :=
  res.ad = true → res.Validated env cfg

/-- The servers send the message in the run from `s` to `s'`: it is cached there. -/
def Env.SendsIn (env : Env) (s s' : St) (msg : Message) : Prop :=
  env.Sends msg ∧ ∃ zone before after,
    Event.response zone msg before after ∈ s'.trace.drop s.trace.length

/-- A reply with RCODE 0 and without an answer that gives an alias for the name. -/
def GivesAlias (name : Bytes) (rtype : UInt16) (msg : Message) : Prop :=
  msg.header.rcode = 0 ∧ directRecords name rtype msg = [] ∧ aliasOf name msg ≠ none

/-- No reply of the run gives an alias for the name. -/
def Env.NoAlias (env : Env) (s s' : St) (name : Bytes) (rtype : UInt16) : Prop :=
  ∀ msg, env.SendsIn s s' msg → ¬ GivesAlias name rtype msg

/-- The result starts with an alias. -/
def Resolution.IsAlias : Resolution → Prop
  | .alias _ _ _ _ => True
  | _ => False

/-- The result is an alias whose target came back with the flag. -/
def Resolution.PassesFlagOn : Resolution → Prop
  | .alias _ _ target _ => target.ad = true
  | _ => False

/-- By cases on the branch: only an alias can pass on a flag that its own record does
not earn. -/
theorem Justified.flagSound_iff {env : Env} {cfg : Config} {rtype : UInt16} {name : Bytes}
    {res : Resolution} (h : Justified env cfg rtype name res) :
    res.FlagSound env cfg ↔ ¬ res.PassesFlagOn := by
  cases h with
  | unvalidated => simp [Resolution.FlagSound, Resolution.ad, Resolution.PassesFlagOn]
  | validated =>
      simp [Resolution.FlagSound, Resolution.ad, Resolution.PassesFlagOn, Resolution.Validated]
  | chased =>
      simp [Resolution.FlagSound, Resolution.ad, Resolution.PassesFlagOn, Resolution.Validated]
  | nodata hsends hsoa hflag =>
      simp [Resolution.FlagSound, Resolution.ad, Resolution.PassesFlagOn, Resolution.Validated,
        hflag]

section AliasReply

variable {env : Env} {fuel : Nat} {cfg : Config} {name : Bytes} {rtype rclass : UInt16}
  {depth : Nat} {s s' s₁ s₂ : St} {msg : Message} {res : Resolution}

/-- A message of a part of the run is one of the run. -/
theorem Env.SendsIn.mono (h : env.SendsIn s₁ s₂ msg) (hbefore : Steps s s₁)
    (hafter : Steps s₂ s') : env.SendsIn s s' msg := by
  obtain ⟨hsends, zone, before, after, hmem⟩ := h
  refine ⟨hsends, zone, before, after, ?_⟩
  obtain ⟨later, hlater⟩ := hafter.trace_prefix
  rw [← hlater, List.drop_append]
  exact List.mem_append_left _ (List.drop_subset_drop_left _ hbefore.trace_prefix.length_le hmem)

/-- The response is the one event of its caching. -/
theorem cacheResponse_recorded {zone : Bytes} {u : Unit}
    (h : cacheResponse cfg zone msg env s = .ok (u, s')) :
    Event.response zone msg s.shared s'.shared ∈ s'.trace.drop s.trace.length := by
  cases h
  have hdrop : (s.trace ++ [Event.response zone msg s.shared (s.shared.cacheResponse
      cfg.enableIpv6 (env.clock s.tick) msg)]).drop s.trace.length = _ := List.drop_left
  exact hdrop ▸ List.mem_singleton_self _

/-- What is made of one reply is an alias only if the reply gives one. -/
theorem branches_givesAlias :
    Branches env (· = msg) cfg rtype fun name depth' res =>
      depth' = depth → res.IsAlias → GivesAlias name rtype msg where
  unvalidated _ _ _ _ _ hres := hres.elim
  validated _ _ _ _ _ _ hres := hres.elim
  chased := by
    rintro name target depth' _ cname res hdepth rfl hrcode hnone halias _ _ _
    exact ⟨hrcode, hnone, by rw [halias]; exact Option.some_ne_none _⟩
  nodata _ _ _ _ _ hres := hres.elim

/-- A round that ends in an alias got a reply that gives it. -/
theorem iteration_givesAlias {search : Search} (hdepth : depth ≤ maxCnameDepth)
    (hflag : search.adBit = false)
    (hrun : iteration (resolveRecursive fuel) cfg name rtype rclass depth (countLabels name) search
      env s = .ok (.inr res, s')) (hres : res.IsAlias) :
    ∃ msg, env.SendsIn s s' msg ∧ GivesAlias name rtype msg := by
  have hP := keeps_steps_primitives
  unfold iteration at hrun
  split at hrun
  · cases hrun
  obtain ⟨qname, s₁, hname, hrun⟩ := Run.bind_eq_ok.mp hrun
  obtain ⟨id, s₂, hid, hrun⟩ := Run.bind_eq_ok.mp hrun
  obtain ⟨query, s₃, hquery, hrun⟩ := Run.bind_eq_ok.mp hrun
  obtain ⟨reply, s₄, hreply, hrun⟩ := Run.bind_eq_ok.mp hrun
  obtain ⟨-, rfl⟩ := call_eq_ok hname
  obtain ⟨-, rfl⟩ := call_eq_ok hquery
  have hasked : Steps s₁ s₄ := ((randomId_closed hP env s₁).1 _ _ hid).trans
    ((queryServersConcurrent_closed hP _ _ env s₃).1 _ _ hreply)
  cases reply with
  | none => cases hrun
  | some msg =>
      obtain ⟨⟨⟩, s₅, hcached, hrun⟩ := Run.bind_eq_ok.mp hrun
      have hsent : env.SendsIn s₄ s₅ msg :=
        ⟨queryServersConcurrent_returns _ _ _ _ _ hreply msg rfl, _, _, _,
          cacheResponse_recorded hcached⟩
      have hhandled : Steps s₅ s' := (handleReply_steps _ _ _ _ _ _ _ _ _ _ env s₅).1 _ _ hrun
      refine ⟨msg, hsent.mono hasked hhandled, ?_⟩
      exact handleReply_returns branches_givesAlias
        (fun target => fun _ _ _ _ hdeeper => absurd hdeeper (Nat.succ_ne_self _)) _ _ hdepth hflag
        rfl s₅ _ s' hrun rfl hres

/-- What says nothing holds of every branch. -/
theorem branches_true : Branches env env.Sends cfg rtype fun _ _ _ => True :=
  ⟨fun _ _ _ _ => trivial, fun _ _ _ _ _ => trivial, fun _ _ _ _ _ _ => trivial,
    fun _ _ _ _ => trivial⟩

/-- So did a loop: the replies of its rounds are replies of the run. -/
theorem iterate_givesAlias (hdepth : depth ≤ maxCnameDepth) (rounds : Nat) {search : Search}
    (hflag : search.adBit = false)
    (hrun : iterate (resolveRecursive fuel) cfg name rtype rclass depth (countLabels name) rounds
      search env s = .ok (res, s')) (hres : res.IsAlias) :
    ∃ msg, env.SendsIn s s' msg ∧ GivesAlias name rtype msg := by
  induction rounds generalizing search s with
  | zero => cases hrun
  | succ rounds ih =>
      rw [iterate] at hrun
      obtain ⟨round, s₁, hround, hrun⟩ := Run.bind_eq_ok.mp hrun
      cases round with
      | inl next =>
          have hnext : next.adBit = false :=
            iteration_returns branches_true (fun _ => Run.returns_true) _ hdepth hflag s _ s₁ hround
          have hpast : Steps s s₁ := (iteration_steps _ _ _ _ _ _ _ _ env s).1 _ _ hround
          obtain ⟨msg, hsent, hgives⟩ := ih hnext hrun
          exact ⟨msg, hsent.mono hpast .refl, hgives⟩
      | inr last =>
          cases hrun
          exact iteration_givesAlias hdepth hflag hround hres

/-- **A result that starts with an alias was read off a reply of the run.** -/
theorem resolveRecursive_givesAlias {qnameMinimize : Bool}
    (hrun : resolveRecursive fuel cfg name rtype rclass depth qnameMinimize env s = .ok (res, s'))
    (hres : res.IsAlias) : ∃ msg, env.SendsIn s s' msg ∧ GivesAlias name rtype msg := by
  cases fuel with
  | zero => cases hrun
  | succ fuel =>
      unfold resolveRecursive resolveRecursiveBody at hrun
      split at hrun
      · cases hrun
      rename_i hdepth
      obtain ⟨cached, s₁, hlookup, hrun⟩ := Run.bind_eq_ok.mp hrun
      have hlooked : Steps s s₁ :=
        (lookupDelegation_closed keeps_steps_primitives name env s).1 _ _ hlookup
      have hflag : (startSearch name qnameMinimize cached).adBit = false := by
        cases cached <;> rfl
      obtain ⟨msg, hsent, hgives⟩ :=
        iterate_givesAlias (Nat.le_of_not_gt hdepth) _ hflag hrun hres
      exact ⟨msg, hsent.mono hlooked .refl, hgives⟩

/-- Only a result that starts with an alias can pass a flag on. -/
theorem Resolution.PassesFlagOn.isAlias : {res : Resolution} → res.PassesFlagOn → res.IsAlias
  | .alias _ _ _ _, _ => trivial
  | .direct _ _ _, h => h.elim
  | .nodata _ _ _ _, h => h.elim

end AliasReply

/-- **Without an alias the flag is raised for validated results only; with one,
exactly when the resolution of the target comes back without the flag.** -/
theorem flag_sound_without_alias (fuel : Nat) (cfg : Config) (name : Bytes)
    (rtype rclass : UInt16) (depth : Nat) (qnameMinimize : Bool) (env : Env) (s s' : St)
    (res : Resolution)
    (hrun : resolveRecursive fuel cfg name rtype rclass depth qnameMinimize env s = .ok (res, s')) :
    (env.NoAlias s s' name rtype → res.FlagSound env cfg) ∧
      (res.FlagSound env cfg ↔ ¬ res.PassesFlagOn) := by
  have hjust := resolveRecursive_justified env cfg rtype rclass fuel name depth qnameMinimize
    s res s' hrun
  refine ⟨fun hno => hjust.flagSound_iff.mpr fun hpasses => ?_, hjust.flagSound_iff⟩
  obtain ⟨msg, hsent, hgives⟩ := resolveRecursive_givesAlias hrun hpasses.isAlias
  exact hno msg hsent hgives

theorem untrustedKeyRun_flag_sound :
    ∃ s', untrustedKeyEnv.NoAlias (.initial 10) s' sampleAnswer.name 1 ∧
      Resolution.FlagSound untrustedKeyEnv ⟨false, true⟩
        (.direct [sampleAnswer] true (some untrustedKeyEvidence)) := by
  obtain ⟨s', hrun⟩ := Run.result_eq_ok.mp untrustedKeyRun_result
  have hno : untrustedKeyEnv.NoAlias (.initial 10) s' sampleAnswer.name 1 := by
    rintro msg ⟨⟨n, query, servers, ⟨⟩⟩, -⟩ ⟨-, hnone, -⟩
    exact absurd hnone (by decide +kernel)
  exact ⟨s', hno, (flag_sound_without_alias _ _ _ _ _ _ _ _ _ _ _ hrun).1 hno⟩

/-- A CNAME record from `b.test` to `a.test`. -/
def sampleAlias : ResourceRecord :=
  ⟨[1, 0x62, 4, 0x74, 0x65, 0x73, 0x74, 0], 5, 1, 60, 8, sampleAnswer.name,
    some (.cname sampleAnswer.name)⟩

/-- Every query is answered with the unsigned alias, the address of its target, a
signature that cannot be parsed and a key. -/
def aliasEnv : Env := .answering Crypto.rejectAll fun _ _ =>
  some (replyWith 0 [sampleAlias, sampleAnswer, unparsedRrsig, sampleKeyRecord] [] [])

/-- **An unvalidated alias of a target with the flag has the flag.** -/
theorem unvalidated_alias_is_flagged :
    ∃ target s', resolveRecursive 2 ⟨false, true⟩ sampleAlias.name 1 1 0 true aliasEnv
        (.initial 10) = .ok (.alias sampleAlias none target true, s') ∧
      ¬ Resolution.FlagSound aliasEnv ⟨false, true⟩ (.alias sampleAlias none target true) := by
  have hresult : (resolveRecursive 2 ⟨false, true⟩ sampleAlias.name 1 1 0 true).result aliasEnv
      (.initial 10) = .ok (.alias sampleAlias none
        (.direct [sampleAnswer] true (some ⟨[unparsedRrsig], [sampleKeyRecord], 0, none⟩))
        true) := by
    decide +kernel
  obtain ⟨s', hrun⟩ := Run.result_eq_ok.mp hresult
  refine ⟨_, s', hrun, ?_⟩
  intro hsound
  exact hsound rfl

end FastDns.Resolver
