/-
The names under which the caches keep things, and letter case.

Records are accepted by `domain_names_equal`, which ignores the case of ASCII
letters (`domainNamesEqual_iff`); the three caches of the resolver are
keyed by the bytes of a name. The laws below say that two spellings of a name
are the same to a cache, in every state it can get to.

* **`name_case_laws_iff`.** For two spellings of one name each of the laws holds
  only if they are the same bytes.
-/

import FastDns.Dns.TextForm
import FastDns.Resolver.Integrity
import FastDns.Resolver.State

namespace FastDns.Resolver

open FastDns.Lib FastDns.Dns

/-! ### The laws -/

/-- The caches after a sequence of calls. -/
def Shared.run (c : Shared) (ops : List SharedOp) : Shared := ops.foldl Shared.apply c

/-- Lookups under the two names return the same RDATA, after any history. -/
def RecordCacheLaw (a b : Bytes) : Prop :=
  ∀ (max : Option Nat) (hist : History) (now : Nat) (rtype rclass : UInt16),
    (((DnsCache.create max).runOps hist).served now (a, rtype, rclass)).map (fun r => r.rdata) =
      (((DnsCache.create max).runOps hist).served now (b, rtype, rclass)).map fun r => r.rdata

/-- The closest cached delegation gives the same servers for the two names. -/
def DelegationCacheLaw (a b : Bytes) : Prop :=
  ∀ (size : Nat) (ops : List SharedOp) (now : Nat),
    (findCachedDelegation now a ((Shared.new size).run ops)).1.map Prod.fst =
      (findCachedDelegation now b ((Shared.new size).run ops)).1.map Prod.fst

/-- The nameserver cache has the same addresses for the two names. -/
def NsCacheLaw (a b : Bytes) : Prop :=
  ∀ (size : Nat) (ops : List SharedOp),
    ((Shared.new size).run ops).nsCache.get? a = ((Shared.new size).run ops).nsCache.get? b

section Laws

variable {a b : Bytes}

theorem recordCacheLaw_iff : RecordCacheLaw a b ↔ a = b := by
  constructor
  · intro hlaw
    by_contra hne
    have hkeys : (b, (1 : UInt16), (1 : UInt16)) ≠ (a, 1, 1) := fun h =>
      hne (congrArg Prod.fst h).symm
    have hsame := hlaw none [(0, .insert (a, 1, 1) 1 [] 0)] 0 1 1
    -- The record of `a` is served under `a` and not under `b`.
    have hthere : ([] : Bytes) ∈ (((DnsCache.create none).runOps
        [(0, .insert (a, 1, 1) 1 [] 0)]).served 0 (b, 1, 1)).map fun r => r.rdata := by
      rw [← hsame, DnsCache.mem_served_rdata]
      change ∃ e ∈ ((DnsCache.new.insert 0 (a, 1, 1) 1 [] 0).recordsOf (a, 1, 1)).getD [], _
      rw [DnsCache.recordsOf_insert_self (by decide)]
      exact ⟨_, List.mem_singleton_self _, rfl, rfl⟩
    obtain ⟨e, he, _⟩ := DnsCache.mem_served_rdata.mp hthere
    change e ∈ ((DnsCache.new.insert 0 (a, 1, 1) 1 [] 0).recordsOf (b, 1, 1)).getD [] at he
    have hmiss : (DnsCache.new.insert 0 (a, 1, 1) 1 [] 0).recordsOf (b, 1, 1) = none :=
      (DnsCache.recordsOf_insert_ne hkeys 1 [] 0).elim id id
    rw [hmiss] at he
    cases he
  · rintro rfl _ _ _ _ _
    rfl

theorem nsCacheLaw_iff : NsCacheLaw a b ↔ a = b := by
  constructor
  · intro hlaw
    by_contra hne
    have hsame := hlaw 0 [.nsPut a []]
    change ((Shared.new 0).nsCache.put a []).get? a = ((Shared.new 0).nsCache.put a []).get? b
      at hsame
    rw [Lru.get?_put_self] at hsame
    rcases Lru.get?_put_ne (c := (Shared.new 0).nsCache) (v := []) (Ne.symm hne) with hnew | hnone
    · rw [hnew] at hsame
      cases hsame
    · rw [hnone] at hsame
      cases hsame
  · rintro rfl _ _
    rfl

/-- No delegation is found for a name when all of those there are have other
names that are at least as long. -/
theorem findDelegationLoop_of_longer (now fuel : Nat) (suffix : Bytes) {c : Shared}
    (h : ∀ zone, c.delegationCache.get? zone ≠ none →
      suffix ≠ zone ∧ suffix.length ≤ zone.length) :
    (findDelegationLoop now fuel suffix c).1 = none := by
  induction fuel generalizing suffix c with
  | zero => rfl
  | succ fuel ih =>
      cases suffix with
      | nil => rfl
      | cons first rest =>
          have hmiss : c.delegationCache.get? (first :: rest) = none := by
            by_contra hthere
            exact (h _ hthere).1 rfl
          unfold findDelegationLoop
          dsimp only
          split
          · rfl
          · rw [hmiss]
            refine ih _ fun zone hzone => ?_
            have hlonger := (h zone (by rwa [← Lru.get?_touch])).2
            have hshorter : (rest.drop first.toNat).length < zone.length := by
              rw [List.length_cons] at hlonger
              rw [List.length_drop]
              omega
            exact ⟨fun heq => Nat.lt_irrefl _ (heq ▸ hshorter), hshorter.le⟩

/-- A delegation that is there and has not expired is found under its own name. -/
theorem findCachedDelegation_of_get {now expiry : Nat} {name : Bytes} {servers : List IpAddr}
    {c : Shared} (hname : 1 < name.length)
    (hget : c.delegationCache.get? name = some (servers, expiry)) (hnow : now < expiry) :
    (findCachedDelegation now name c).1 = some (servers, name) := by
  match name, hname with
  | first :: second :: rest, _ =>
      rw [findCachedDelegation, List.length_cons, findDelegationLoop]
      simp [hget, hnow]

theorem delegationCacheLaw_iff (ha : WireName a) (hb : WireName b)
    (hab : domainNamesEqual a b = true) : DelegationCacheLaw a b ↔ a = b := by
  constructor
  · intro hlaw
    by_contra hne
    have hlen := length_eq_of_domainNamesEqual ha hb hab
    have hlong : 1 < a.length := by
      by_contra hshort
      -- The root has one spelling only.
      have hroot : ∀ n : Bytes, WireName n → n.length ≤ 1 → n = [0] := by
        rintro _ ⟨labels, _, rfl⟩ hle
        cases labels with
        | nil => rfl
        | cons label labels =>
            have hrest : labels.length < (wireName labels).length := length_lt_wireName
            simp only [wireName, List.cons_append, List.length_cons, List.length_append] at hle
            omega
      rw [hroot a ha (by omega), hroot b hb (by omega)] at hne
      exact hne rfl
    have hsame := hlaw 0 [.delegationPut a [] 1] 0
    have hput : ((Shared.new 0).run [.delegationPut a [] 1]).delegationCache =
        (Shared.new 0).delegationCache.put a ([], 1) := rfl
    have hfound : (findCachedDelegation 0 a ((Shared.new 0).run [.delegationPut a [] 1])).1 =
        some ([], a) :=
      findCachedDelegation_of_get hlong (by rw [hput, Lru.get?_put_self]) Nat.zero_lt_one
    have hmiss : (findCachedDelegation 0 b ((Shared.new 0).run [.delegationPut a [] 1])).1 =
        none := by
      refine findDelegationLoop_of_longer _ _ _ fun zone hzone => ?_
      have hzone' : zone = a := by
        by_contra hother
        rw [hput] at hzone
        rcases Lru.get?_put_ne (c := (Shared.new 0).delegationCache) (v := ([], 1)) hother with
          hnew | hnone
        · exact hzone (hnew.trans rfl)
        · exact hzone hnone
      rw [hzone']
      exact ⟨Ne.symm hne, hlen.ge⟩
    rw [hfound, hmiss] at hsame
    cases hsame
  · rintro rfl _ _ _
    rfl

end Laws

/-- **Two spellings of one name are the same to the caches only if they are the
same bytes.** -/
theorem name_case_laws_iff (a b : Bytes) (ha : WireName a) (hb : WireName b)
    (hab : domainNamesEqual a b = true) :
    (RecordCacheLaw a b ↔ a = b) ∧ (DelegationCacheLaw a b ↔ a = b) ∧ (NsCacheLaw a b ↔ a = b) :=
  ⟨recordCacheLaw_iff, delegationCacheLaw_iff ha hb hab, nsCacheLaw_iff⟩

/-- The name `a` in both cases is a pair of spellings the laws fail for. -/
theorem name_case_laws_iff_letter :
    WireName [1, 0x41, 0] ∧ WireName [1, 0x61, 0] ∧
      domainNamesEqual [1, 0x41, 0] [1, 0x61, 0] = true ∧
      ¬ RecordCacheLaw [1, 0x41, 0] [1, 0x61, 0] ∧
      ¬ DelegationCacheLaw [1, 0x41, 0] [1, 0x61, 0] ∧ ¬ NsCacheLaw [1, 0x41, 0] [1, 0x61, 0] := by
  have ha : WireName [1, 0x41, 0] := ⟨[[0x41]], by simp [LabelsOk], rfl⟩
  have hb : WireName [1, 0x61, 0] := ⟨[[0x61]], by simp [LabelsOk], rfl⟩
  have hab : domainNamesEqual [1, 0x41, 0] [1, 0x61, 0] = true := by decide
  obtain ⟨hrecords, hdelegations, haddresses⟩ := name_case_laws_iff _ _ ha hb hab
  rw [hrecords, hdelegations, haddresses]
  exact ⟨ha, hb, hab, by decide, by decide, by decide⟩

/-- An answer for `a` whose owner is spelled `A` is accepted and stored, and then
not found under `a`. -/
theorem accepted_answer_lost :
    domainNamesEqual [1, 0x41, 0] [1, 0x61, 0] = true ∧
      ((DnsCache.new.insertRecords 0
        [⟨[1, 0x41, 0], 1, 1, 300, 4, [10, 0, 0, 1], none⟩]).served 0 ([1, 0x41, 0], 1, 1)).map
          (fun r => r.rdata) = [[10, 0, 0, 1]] ∧
      ((DnsCache.new.insertRecords 0
        [⟨[1, 0x41, 0], 1, 1, 300, 4, [10, 0, 0, 1], none⟩]).served 0 ([1, 0x61, 0], 1, 1)).map
          (fun r => r.rdata) = [] := by
  decide +kernel

end FastDns.Resolver
