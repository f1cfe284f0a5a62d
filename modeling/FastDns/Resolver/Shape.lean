/-
The shape of what `resolve_recursive` returns.

The records of a result are CNAME records that lead from the name asked for to
the last name, each owned by the target of the one before it, and then records
of the type asked for at that last name. Every alias costs one level of depth
and the depth is bounded, so there are at most ten of them. Nothing else that a
response contains gets into the result.
-/

import FastDns.Resolver.Authenticated

namespace FastDns.Resolver

open FastDns.Lib FastDns.Dns FastDns.Dnssec

/-! ### Chains of aliases -/

/-- CNAME records from a name to a last name, each at the target of the one
before it. Names are compared by `domain_names_equal`. -/
inductive AliasChain : Bytes → List ResourceRecord → Bytes → Prop where
  | nil {name : Bytes} : AliasChain name [] name
  | cons {name target last : Bytes} {cname : ResourceRecord} {rest : List ResourceRecord}
      (howner : domainNamesEqual cname.name name = true) (htype : cname.rtype = 5)
      (htarget : aliasTarget cname = some target) (hrest : AliasChain target rest last) :
      AliasChain name (cname :: rest) last

/-- At most `limit` aliases from the name to a last one, and records of the type
there. -/
def Shaped (rtype : UInt16) (limit : Nat) (name : Bytes) (records : List ResourceRecord) : Prop :=
  ∃ aliases last finals, records = aliases ++ finals ∧ aliases.length ≤ limit ∧
    AliasChain name aliases last ∧
    ∀ r ∈ finals, r.rtype = rtype ∧ domainNamesEqual r.name last = true

section Branches

variable {name target : Bytes} {rtype : UInt16} {msg : Message}

theorem mem_directRecords {r : ResourceRecord} (h : r ∈ directRecords name rtype msg) :
    r.rtype = rtype ∧ domainNamesEqual r.name name = true := by
  obtain ⟨_, hmatch⟩ := List.mem_filter.mp h
  rw [Bool.and_eq_true] at hmatch
  exact ⟨of_decide_eq_true hmatch.2, hmatch.1⟩

theorem aliasOf_eq_some {cname : ResourceRecord} (h : aliasOf name msg = some (cname, target)) :
    domainNamesEqual cname.name name = true ∧ cname.rtype = 5 ∧
      aliasTarget cname = some target := by
  unfold aliasOf at h
  split at h
  · rename_i first rest hfirst
    obtain ⟨found, hfound, hpair⟩ := Option.map_eq_some_iff.mp h
    cases hpair
    have hmem : cname ∈ msg.answers.filter fun r => domainNamesEqual r.name name && r.rtype = 5 := by
      rw [hfirst]
      exact List.mem_cons_self
    obtain ⟨_, hmatch⟩ := List.mem_filter.mp hmem
    rw [Bool.and_eq_true] at hmatch
    exact ⟨hmatch.1, of_decide_eq_true hmatch.2, hfound⟩
  · cases h

theorem shaped_directRecords (limit : Nat) :
    Shaped rtype limit name (directRecords name rtype msg) :=
  ⟨[], name, _, rfl, Nat.zero_le _, .nil, fun _ hr => mem_directRecords hr⟩

theorem Shaped.alias {limit : Nat} {cname : ResourceRecord} {records : List ResourceRecord}
    (halias : aliasOf name msg = some (cname, target)) (h : Shaped rtype limit target records) :
    Shaped rtype (limit + 1) name (cname :: records) := by
  obtain ⟨aliases, last, finals, rfl, hlength, hchain, hfinals⟩ := h
  obtain ⟨howner, htype, htarget⟩ := aliasOf_eq_some halias
  exact ⟨cname :: aliases, last, finals, rfl, Nat.succ_le_succ hlength,
    .cons howner htype htarget hchain, hfinals⟩

theorem Shaped.mono {limit limit' : Nat} {records : List ResourceRecord} (hle : limit ≤ limit')
    (h : Shaped rtype limit name records) : Shaped rtype limit' name records := by
  obtain ⟨aliases, last, finals, hrecords, hlength, hrest⟩ := h
  exact ⟨aliases, last, finals, hrecords, Nat.le_trans hlength hle, hrest⟩

end Branches

/-- At depth `d` a result has the shape, with at most `10 - d` aliases, and there
is none at a depth beyond ten. -/
theorem branches_shaped (env : Env) (cfg : Config) (rtype : UInt16) :
    Branches env env.Sends cfg rtype fun name depth res =>
      depth ≤ maxCnameDepth ∧ Shaped rtype (maxCnameDepth - depth) name res.records where
  unvalidated := by
    intro name depth msg hdepth _ _ _
    exact ⟨hdepth, shaped_directRecords _⟩
  validated := by
    intro name depth msg ev hdepth _ _ _ _
    exact ⟨hdepth, shaped_directRecords _⟩
  chased := by
    intro name target depth msg cname res hdepth _ _ _ halias htarget
    obtain ⟨hdeeper, hshape⟩ := htarget
    refine ⟨hdepth, (hshape.alias halias).mono ?_⟩
    omega
  nodata := by
    intro name qname depth msg negative revealed hdepth _ _ _
    exact ⟨hdepth, [], name, [], rfl, Nat.zero_le _, .nil, by simp⟩

/-- **Whatever the servers answer, the records of a result are at most ten
aliases from the name to a last one, and records of the type asked for there.** -/
theorem resolveRecursive_shaped (fuel : Nat) (cfg : Config) (name : Bytes)
    (rtype rclass : UInt16) (qnameMinimize : Bool) (env : Env) (s s' : St) (res : Resolution)
    (hrun : resolveRecursive fuel cfg name rtype rclass 0 qnameMinimize env s = .ok (res, s')) :
    Shaped rtype 10 name res.records :=
  (resolveRecursive_returns (branches_shaped env cfg rtype) rclass fuel name 0 qnameMinimize
    s res s' hrun).2

/-- The alias of `b.test` and the address of its target. -/
theorem resolveRecursive_shaped_sampleAlias :
    ∃ res s', resolveRecursive 2 ⟨false, true⟩ sampleAlias.name 1 1 0 true aliasEnv (.initial 10) =
        .ok (res, s') ∧ res.records = [sampleAlias, sampleAnswer] ∧
      Shaped 1 10 sampleAlias.name res.records := by
  have hresult : (resolveRecursive 2 ⟨false, true⟩ sampleAlias.name 1 1 0 true).result aliasEnv
      (.initial 10) = .ok (.alias sampleAlias none
        (.direct [sampleAnswer] true (some ⟨[unparsedRrsig], [sampleKeyRecord], 0, none⟩))
        true) := by
    decide +kernel
  obtain ⟨s', hrun⟩ := Run.result_eq_ok.mp hresult
  exact ⟨_, s', hrun, rfl, resolveRecursive_shaped _ _ _ _ _ _ _ _ _ _ hrun⟩

end FastDns.Resolver
