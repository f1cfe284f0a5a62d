/-
QNAME minimisation and NODATA (`src/resolver/recursive.rs`: the SOA branch of
`resolve_recursive`).

While not all labels are revealed the queries of a call ask for a suffix of the
name. A reply with RCODE 0 and an SOA record ends the call with "no data", and
the code that goes on to the full name comes after that return. So a minimised
query can decide for the name it was a part of. `nodata_full_query_iff` says for
which calls it cannot: those that never send one. For one world it is enough that
such a reply is never given to a minimised query.
-/

import FastDns.Resolver.Rounds

namespace FastDns.Resolver

open FastDns.Lib FastDns.Dns FastDns.Dnssec

/-- "No data" for `name` was the answer to a query for all of `name`. -/
def Resolution.FullQuery (name : Bytes) : Resolution → Prop
  | .nodata _ _ qname revealed => qname = name ∧ countLabels name ≤ revealed
  | _ => True

/-! ### Calls that reveal all labels -/

section Full

variable {env : Env} {self : Recursive} {cfg : Config} {name : Bytes} {rtype rclass : UInt16}
  {depth : Nat}

/-- A round that starts with all labels revealed ends with all of them revealed,
or with a result for the full name. -/
def RoundFull (name : Bytes) : Search ⊕ Resolution → Prop :=
  Sum.elim (fun s => countLabels name ≤ s.revealedLabels) (Resolution.FullQuery name)

/-- A direct answer is no result without data. -/
theorem directAnswer_full (totalLabels : Nat) (s : Search) (msg : Message)
    (direct : List ResourceRecord) :
    Run.Returns env (directAnswer self cfg name rtype rclass totalLabels s msg direct)
      (Resolution.FullQuery name) := by
  unfold directAnswer
  split
  · exact Run.returns_bind' fun _ => Run.returns_bind' fun _ => Run.returns_bind' fun _ =>
      Run.returns_bind' fun _ => Run.returns_bind' fun _ => Run.returns_bind' fun _ =>
      Run.returns_pure trivial
  · exact Run.returns_bind' fun _ => Run.returns_pure trivial

variable {s : Search} (hfull : countLabels name ≤ s.revealedLabels)

include hfull

/-- With all labels revealed, "no data" is about the full name. -/
theorem negativeAnswer_full (msg : Message) :
    Run.Returns env (negativeAnswer self cfg name rclass (countLabels name) s name msg)
      (RoundFull name) := by
  unfold negativeAnswer
  split
  · exact Run.returns_bind' fun _ => Run.returns_pure ⟨rfl, hfull⟩
  · refine Run.returns_pure ?_
    change _ ≤ Search.revealedLabels (Search.rotate _)
    rw [rotate_revealedLabels]
    dsimp only
    split
    · exact le_refl _
    · exact hfull

/-- A referral that is followed keeps all labels revealed. -/
theorem referral_full (msg : Message) :
    Run.Returns env (referral self cfg name rclass depth (countLabels name) s name msg)
      (RoundFull name) := by
  unfold referral
  split
  · exact negativeAnswer_full hfull msg
  · refine Run.returns_bind' fun _ => Run.returns_bind' fun _ => Run.returns_bind' fun _ => ?_
    split
    · exact negativeAnswer_full hfull msg
    · refine Run.returns_bind' fun _ => Run.returns_pure ?_
      change _ ≤ (if s.revealedLabels < countLabels name then _ else _)
      rw [if_neg (Nat.not_lt.mpr hfull)]
      exact hfull

/-- An alias is no result without data either. -/
theorem classifyReply_full (msg : Message) :
    Run.Returns env (classifyReply self cfg name rtype rclass depth (countLabels name) s name msg)
      (RoundFull name) := by
  unfold classifyReply
  split
  · exact Run.returns_bind (directAnswer_full _ s msg _) fun _ hres => Run.returns_pure hres
  · cases aliasOf name msg with
    | none => exact referral_full hfull msg
    | some found => exact Run.returns_bind' fun _ => Run.returns_bind' fun _ =>
        Run.returns_pure trivial

theorem handleReply_full (msg : Message) :
    Run.Returns env (handleReply self cfg name rtype rclass depth (countLabels name) s name msg)
      (RoundFull name) := by
  unfold handleReply
  split
  · exact Run.returns_bind' fun _ => Run.returns_throw
  split
  · exact Run.returns_pure (hfull.trans_eq (rotate_revealedLabels s).symm)
  · exact classifyReply_full hfull msg

/-- **The round** asks for the full name. -/
theorem iteration_full :
    Run.Returns env (iteration self cfg name rtype rclass depth (countLabels name) s)
      (RoundFull name) := by
  unfold iteration
  split
  · exact Run.returns_throw
  · have hname : Run.Returns env (call (minimizeName name (countLabels name) s) : Resolve Bytes)
        fun qname => qname = name := by
      rw [minimizeName, if_neg (Nat.not_lt.mpr hfull)]
      exact Run.returns_pure rfl
    refine Run.returns_bind hname ?_
    rintro _ rfl
    refine Run.returns_bind' fun id => Run.returns_bind' fun query =>
      Run.returns_bind' ?_
    intro reply
    cases reply with
    | none => exact Run.returns_pure (hfull.trans_eq (rotate_revealedLabels s).symm)
    | some msg => exact Run.returns_bind' fun _ => handleReply_full hfull msg

end Full

/-! ### Calls that send a minimised query -/

/-- A reply without data: RCODE 0 and an SOA record. -/
def soaReply : Message := replyWith 0 [] [⟨[0], 6, 1, 0, 0, [], none⟩] []

/-- The world in which it is always `now` and all servers send the reply without
data. -/
def noDataEnv (now : Nat) : Env :=
  { Env.answering Crypto.rejectAll (fun _ _ => some soaReply) with clock := fun _ => now }

/-- Nothing but the one reply is ever sent there. -/
theorem noDataEnv_alwaysSends (now : Nat) (enableIpv6 : Bool) :
    (noDataEnv now).AlwaysSends soaReply enableIpv6 fun _ => True where
  reply _ _ _ := rfl
  expires _ := rfl
  others _ _ _ _ _ := trivial
  response _ _ _ := trivial

section Minimised

variable {env : Env} {self : Recursive} {cfg : Config} {name : Bytes} {rtype rclass : UInt16}
  {depth : Nat}

/-- A call that cannot name its first query returns nothing. -/
theorem iterate_of_namePrefix (hname : ∀ qname, namePrefix name 1 ≠ .ok qname) (rounds : Nat)
    (Q : Resolution → Prop) :
    Run.Returns env (iterate self cfg name rtype rclass depth (countLabels name) rounds rootSearch)
      Q := by
  cases rounds with
  | zero => exact Run.returns_throw
  | succ rounds =>
      have hround : Run.Returns env
          (iteration self cfg name rtype rclass depth (countLabels name) rootSearch)
          fun _ => False := by
        unfold iteration
        rw [if_neg (by decide), minimizeName_rootSearch]
        refine Run.returns_bind (P := fun _ => False) ?_ fun _ hno => hno.elim
        intro s qname s' heq
        cases hfound : namePrefix name 1 with
        | ok found => exact hname found hfound
        | err e => rw [hfound] at heq; cases heq
        | panic => rw [hfound] at heq; cases heq
        | diverge => rw [hfound] at heq; cases heq
      exact Run.returns_bind hround fun _ hno => hno.elim

/-- That reply ends the search without data. -/
theorem handleReply_soaReply (totalLabels : Nat) (s : Search) (qname : Bytes)
    (I : St → Prop) :
    Run.Ensures env I
      (handleReply self cfg name rtype rclass depth totalLabels s qname soaReply)
      fun round => round = .inr (.nodata s.adBit none qname s.revealedLabels) := by
  have hnegative : validateNegativeDnssecResponse self cfg soaReply name rclass =
      pure ⟨false, soaReply.authorities, none⟩ := by
    unfold validateNegativeDnssecResponse
    exact if_pos (by simp [soaReply, replyWith, ofType])
  change Run.Ensures env I (negativeAnswer self cfg name rclass totalLabels s qname soaReply) _
  unfold negativeAnswer
  rw [if_pos (by decide), hnegative]
  exact Run.ensures_pure (by simp)

/-- The reply without data to the first query is final. -/
theorem iterate_noDataEnv {qname : Bytes} (now : Nat) (hlabels : 1 < countLabels name)
    (hname : namePrefix name 1 = .ok qname) :
    Run.Ensures (noDataEnv now) (Shares fun _ => True)
      (iterate self cfg name rtype rclass depth (countLabels name) maxIterations rootSearch)
      fun res => res = .nodata false none qname 1 := by
  have hround : Run.Ensures (noDataEnv now) (Shares fun _ => True)
      (iteration self cfg name rtype rclass depth (countLabels name) rootSearch)
      fun round => round = .inr (.nodata false none qname 1) :=
    iteration_ends (noDataEnv_alwaysSends now cfg.enableIpv6) (by decide)
      ((minimizeName_rootSearch name).trans hname)
      ((length_namePrefix_one hlabels hname).trans (by decide))
      (handleReply_soaReply _ _ _ _)
  rw [show maxIterations = 31 + 1 from rfl, iterate]
  refine Run.ends_bind hround ?_
  rintro _ rfl
  exact Run.ensures_pure rfl

/-- So the call ends with the first query it sends. -/
theorem resolveRecursive_noDataEnv {qname : Bytes} {now : Nat} {s : St}
    (hdepth : depth ≤ maxCnameDepth) (hlabels : 1 < countLabels name)
    (hmiss : (findCachedDelegation now name s.shared).1 = none)
    (hname : namePrefix name 1 = .ok qname) :
    ∃ s', resolveRecursive 1 cfg name rtype rclass depth true (noDataEnv now) s =
      .ok (.nodata false none qname 1, s') := by
  obtain ⟨res, s', hrun, _, rfl⟩ :=
    iterate_noDataEnv now hlabels hname (s.afterLookup (noDataEnv now) name) trivial
  refine ⟨s', (resolveRecursiveBody_eq hdepth).trans ?_⟩
  rw [show (noDataEnv now).clock s.tick = now from rfl, hmiss]
  exact hrun

/-- From the first search of a call: it reveals the full name, or its first query
cannot be named. -/
theorem iterate_startSearch {cached : Option (List IpAddr × Bytes)} {qnameMinimize : Bool}
    (hcond : qnameMinimize = false ∨ countLabels name ≤ 1 ∨ cached ≠ none ∨
      ∀ qname, namePrefix name 1 ≠ .ok qname) (rounds : Nat) :
    Run.Returns env (iterate self cfg name rtype rclass depth (countLabels name) rounds
      (startSearch name qnameMinimize cached)) (Resolution.FullQuery name) := by
  by_cases hfull : countLabels name ≤ (startSearch name qnameMinimize cached).revealedLabels
  · exact iterate_returns (fun s hfull => iteration_full hfull) rounds hfull
  · obtain ⟨hminimize, hmiss, hlabels, hstart⟩ := startSearch_revealedLabels hfull
    rw [hstart]
    rcases hcond with h | h | h | hname
    · rw [hminimize] at h
      cases h
    · exact absurd hlabels (Nat.not_lt.mpr h)
    · exact absurd hmiss h
    · exact iterate_of_namePrefix hname rounds _

end Minimised

/-! ### Worlds that spare minimised queries -/

/-- No reply to a minimised query is one without data. -/
def Env.SparesMinimised (env : Env) (cfg : Config) (name : Bytes) (rtype rclass : UInt16) : Prop :=
  ∀ n revealed qname id query servers msg, revealed < countLabels name →
    namePrefix name revealed = .ok qname →
    buildQueryStatic qname rtype rclass id cfg.dnssecOk false = .ok query →
    env.reply n query servers = some msg → msg.header.rcode = 0 → ofType 6 msg.authorities = []

section Spared

variable {env : Env} {self : Recursive} {cfg : Config} {name : Bytes} {rtype rclass : UInt16}
  {depth : Nat} {s : Search} {qname : Bytes} {msg : Message}

/-- A round that ends the call gives a result for the full name. -/
def RoundSpared (name : Bytes) : Search ⊕ Resolution → Prop :=
  Sum.elim (fun _ => True) (Resolution.FullQuery name)

/-- A round for the full name is one that is spared. -/
theorem RoundFull.spared {round : Search ⊕ Resolution} (h : RoundFull name round) :
    RoundSpared name round := by
  cases round with
  | inl s => trivial
  | inr res => exact h

/-- Without an SOA record the search goes on. -/
theorem negativeAnswer_spared (hsoa : ofType 6 msg.authorities = []) (totalLabels : Nat) :
    Run.Returns env (negativeAnswer self cfg name rclass totalLabels s qname msg)
      (RoundSpared name) := by
  unfold negativeAnswer
  rw [if_neg (by simp [hsoa])]
  exact Run.returns_pure trivial

/-- A referral ends in another search, or in that. -/
theorem referral_spared (hsoa : ofType 6 msg.authorities = []) (totalLabels : Nat) :
    Run.Returns env (referral self cfg name rclass depth totalLabels s qname msg)
      (RoundSpared name) := by
  unfold referral
  split
  · exact negativeAnswer_spared hsoa totalLabels
  · refine Run.returns_bind' fun _ => Run.returns_bind' fun _ => Run.returns_bind' fun _ => ?_
    split
    · exact negativeAnswer_spared hsoa totalLabels
    · exact Run.returns_bind' fun _ => Run.returns_pure trivial

/-- A reply with an SOA record or another RCODE does not end the search without data. -/
theorem handleReply_spared (hspared : msg.header.rcode = 0 → ofType 6 msg.authorities = [])
    (totalLabels : Nat) :
    Run.Returns env (handleReply self cfg name rtype rclass depth totalLabels s qname msg)
      (RoundSpared name) := by
  unfold handleReply
  split
  · exact Run.returns_bind' fun _ => Run.returns_throw
  split
  · exact Run.returns_pure trivial
  rename_i hrcode
  have hsoa := hspared (not_not.mp hrcode)
  unfold classifyReply
  split
  · exact Run.returns_bind (directAnswer_full totalLabels s msg _) fun _ hres =>
      Run.returns_pure hres
  · cases aliasOf name msg with
    | none => exact referral_spared hsoa totalLabels
    | some found => exact Run.returns_bind' fun _ => Run.returns_bind' fun _ =>
        Run.returns_pure trivial

/-- A round asks for the full name, or for a part of it and is spared. -/
theorem iteration_spared (h : env.SparesMinimised cfg name rtype rclass) :
    Run.Returns env (iteration self cfg name rtype rclass depth (countLabels name) s)
      (RoundSpared name) := by
  by_cases hfull : countLabels name ≤ s.revealedLabels
  · exact fun st round st' hrun => (iteration_full hfull st round st' hrun).spared
  unfold iteration
  split
  · exact Run.returns_throw
  refine Run.returns_bind call_returns fun qname hname => Run.returns_bind' fun id =>
    Run.returns_bind call_returns fun query hquery =>
      Run.returns_bind (queryServersConcurrent_answers query s.nameservers) fun reply hreply => ?_
  cases reply with
  | none => exact Run.returns_pure trivial
  | some msg =>
      obtain ⟨n, hsent⟩ := hreply msg rfl
      have hless := Nat.not_le.mp hfull
      rw [minimizeName, if_pos hless] at hname
      exact Run.returns_bind' fun _ => handleReply_spared
        (h n s.revealedLabels qname id query s.nameservers msg hless hname hquery hsent) _

/-- The run lemma: no shortened name decides. -/
theorem resolveRecursive_spared (h : env.SparesMinimised cfg name rtype rclass)
    {qnameMinimize : Bool} (fuel : Nat) :
    Run.Returns env (resolveRecursive fuel cfg name rtype rclass depth qnameMinimize)
      (Resolution.FullQuery name) := by
  cases fuel with
  | zero => exact fun s res s' hrun => by cases hrun
  | succ fuel =>
      unfold resolveRecursive resolveRecursiveBody
      split
      · exact Run.returns_throw
      · have hround : ∀ search, True → Run.Returns env
            (iteration (resolveRecursive fuel) cfg name rtype rclass depth (countLabels name) search)
            (RoundSpared name) := fun _ _ => iteration_spared h
        exact Run.returns_bind' fun _ => iterate_returns hround _ trivial

end Spared

/-! ### When a minimised query cannot decide -/

/-- **"No data" is always the answer to a query for the full name exactly when
the call sends no minimised query**: it is too deep to send any, minimisation is
off, there is a single label, the servers come from the delegation cache, or the
last label is cut short so that the first query cannot be built. In one world it is
so, too, if a minimised query never gets a reply without data. -/
theorem nodata_full_query_iff (cfg : Config) (name : Bytes) (rtype rclass : UInt16) (depth : Nat)
    (qnameMinimize : Bool) (now : Nat) (s : St) :
    ((∀ fuel env, env.clock s.tick = now → ∀ res s',
      resolveRecursive fuel cfg name rtype rclass depth qnameMinimize env s = .ok (res, s') →
      res.FullQuery name) ↔
    maxCnameDepth < depth ∨ qnameMinimize = false ∨ countLabels name ≤ 1 ∨
      (findCachedDelegation now name s.shared).1 ≠ none ∨
      ∀ qname, namePrefix name 1 ≠ .ok qname) ∧
    ∀ fuel env, env.SparesMinimised cfg name rtype rclass → ∀ res s',
      resolveRecursive fuel cfg name rtype rclass depth qnameMinimize env s = .ok (res, s') →
      res.FullQuery name := by
  refine ⟨?_, fun fuel env hspares => resolveRecursive_spared hspares fuel s⟩
  constructor
  · intro hall
    by_contra hsends
    simp only [not_or, Nat.not_lt, Nat.not_le, Bool.not_eq_false, ne_eq, not_not, not_forall]
      at hsends
    obtain ⟨hdepth, rfl, hlabels, hmiss, qname, hname⟩ := hsends
    -- One reply to the first query is enough to go wrong.
    obtain ⟨s', hrun⟩ := resolveRecursive_noDataEnv hdepth hlabels hmiss hname
    have hfull := hall 1 (noDataEnv now) rfl _ s' hrun
    exact Nat.not_le.mpr hlabels hfull.2
  · intro hcond fuel env hnow res s' hrun
    cases fuel with
    | zero => cases hrun
    | succ fuel =>
        rcases Nat.lt_or_ge maxCnameDepth depth with hdeep | hdepth
        · unfold resolveRecursive at hrun
          rw [resolveRecursiveBody_tooDeep hdeep] at hrun
          cases hrun
        · replace hrun := (resolveRecursiveBody_eq hdepth).symm.trans hrun
          rw [hnow] at hrun
          refine iterate_startSearch ?_ maxIterations _ res s' hrun
          exact hcond.resolve_left (Nat.not_lt.mpr hdepth)

/-- `a.test`: a server without data for `test` decides for `a.test`. -/
theorem minimised_query_decides :
    ∃ s', resolveRecursive 1 ⟨false, false⟩ sampleAnswer.name 1 1 0 true (noDataEnv 0)
        (.initial 10) = .ok (.nodata false none [4, 0x74, 0x65, 0x73, 0x74, 0] 1, s') ∧
      ¬ Resolution.FullQuery sampleAnswer.name
        (.nodata false none [4, 0x74, 0x65, 0x73, 0x74, 0] 1) := by
  have hresult : (resolveRecursive 1 ⟨false, false⟩ sampleAnswer.name 1 1 0 true).result
      (noDataEnv 0) (.initial 10) =
        .ok (.nodata false none [4, 0x74, 0x65, 0x73, 0x74, 0] 1) := by
    decide +kernel
  obtain ⟨s', hrun⟩ := Run.result_eq_ok.mp hresult
  refine ⟨s', hrun, ?_⟩
  rintro ⟨hname, _⟩
  exact absurd hname (by decide)

end FastDns.Resolver
