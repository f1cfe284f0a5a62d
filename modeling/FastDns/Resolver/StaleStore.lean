/-
How long the stale store keeps a record.

A lookup at time `s` finds a record expired and moves it to the stale store.
What may happen afterwards is a continuation: calls in order of time, without
`clear`, without an eviction of the key from the stale store, and without a new
insertion of the RDATA under the key. The record should then be retrievable
until six hours after its expiry.

A later lookup that finds other records of the key expired puts these in the
place of the earlier ones, and with that the record is gone. Nothing else takes
it away: it is retrievable exactly as long as no such lookup is made
(`staleRetrievable_iff`).
-/

import FastDns.Resolver.Freshness
import FastDns.Resolver.History

namespace FastDns.Resolver.DnsCache

open FastDns.Lib FastDns.Dns

/-! ### Continuations -/

/-- No call of the history is a bad one. -/
def Never (bad : DnsCache → Nat → CacheOp → Prop) : DnsCache → History → Prop
  | _, [] => True
  | c, (now, op) :: rest => ¬ bad c now op ∧ Never bad (c.apply now op) rest

/-- The call is a lookup of `k` that finds a record expired. -/
def FindsExpired (k : CacheKey) (c : DnsCache) (now : Nat) (op : CacheOp) : Prop :=
  op = .lookup k ∧ ∃ vec, c.recordsOf k = some vec ∧ expiredOf now vec ≠ []

/-- The call moves records of another key, and the stale store makes room at the
cost of `k`. -/
def EvictsStale (k : CacheKey) (c : DnsCache) (now : Nat) (op : CacheOp) : Prop :=
  (∃ j, op = .lookup j ∧ j ≠ k) ∧ c.staleOf k ≠ none ∧ (c.apply now op).staleOf k = none

/-- The call caches the RDATA under `k`. -/
def CachesAgain (k : CacheKey) (rdata : Bytes) (op : CacheOp) : Prop :=
  ∃ ttl rdlength, op = .insert k ttl rdata rdlength ∧ ttl ≠ 0

/-- What may happen between the lookup at `s` and the retrieval at `t`. -/
structure StaleContinuation (c : DnsCache) (s t : Nat) (k : CacheKey) (rdata : Bytes)
    (hist : History) : Prop where
  ordered : Between s t hist
  kept : ∀ op ∈ hist, op.2 ≠ .clear
  resident : Never (EvictsStale k) c hist
  once : ∀ op ∈ hist, ¬ CachesAgain k rdata op.2

/-- `lookup_stale` returns the record. -/
def Retrievable (c : DnsCache) (now : Nat) (k : CacheKey) (e : CacheEntry) : Prop :=
  ∃ records, (c.lookupStale now k).1 = some records ∧ { e.record with ttl := 0 } ∈ records

/-! ### One call -/

section Steps

variable {c : DnsCache} {now : Nat} {k : CacheKey} {e : CacheEntry} {vec : List CacheEntry}

/-- A usable entry is found by the next stale look-up. -/
theorem retrievable_of_mem (hvec : c.staleOf k = some vec) (he : e ∈ vec)
    (husable : usableStale now e = true) : Retrievable c now k e := by
  have hmem : e ∈ vec.filter (usableStale now) := List.mem_filter.mpr ⟨he, husable⟩
  have hne : ¬ (vec.filter (usableStale now)).isEmpty = true := by
    intro hempty
    rw [List.isEmpty_iff.mp hempty] at hmem
    cases hmem
  refine ⟨(vec.filter (usableStale now)).map fun e => { e.record with ttl := 0 }, ?_,
    List.mem_map.mpr ⟨e, hmem, rfl⟩⟩
  unfold staleOf at hvec
  unfold lookupStale
  rw [hvec]
  simp only [hne]
  rfl

/-- What is found expired takes the place of what the stale store had. -/
theorem staleOf_lookup (hvec : c.recordsOf k = some vec) (hne : expiredOf now vec ≠ []) :
    (c.lookup now k).2.staleOf k = some (expiredOf now vec) := by
  have hstale : ¬ (vec.filter fun e => e.isExpired now).isEmpty = true :=
    fun hempty => hne (List.isEmpty_iff.mp hempty)
  unfold recordsOf at hvec
  unfold staleOf lookup
  rw [hvec]
  simp only [hstale]
  split
  · exact Lru.get?_put_self
  · exact Lru.get?_put_self

/-- Purging keeps the list of a usable entry. -/
theorem staleOf_purgeExpired (hvec : c.staleOf k = some vec) (he : e ∈ vec)
    (husable : usableStale now e = true) : (c.purgeExpired now).staleOf k = some vec := by
  refine Eq.trans (Lru.get?_foldl_pop_of_ne ?_ _) hvec
  rintro ⟨j, other⟩ hmem rfl
  obtain ⟨hin, hold⟩ := List.mem_filter.mp hmem
  have hsame : other = vec := Option.some.inj ((Lru.get?_of_mem_toList hin).symm.trans hvec)
  have hunusable := List.all_eq_true.mp hold e (hsame ▸ he)
  rw [husable] at hunusable
  cases hunusable

/-- So does a stale look-up. -/
theorem staleOf_lookupStale (hvec : c.staleOf k = some vec) (he : e ∈ vec)
    (husable : usableStale now e = true) (j : CacheKey) :
    (c.lookupStale now j).2.staleOf k = some vec := by
  unfold staleOf at hvec ⊢
  unfold lookupStale
  cases hj : c.staleEntries.get? j with
  | none => exact hvec
  | some other =>
      by_cases hempty : (other.filter (usableStale now)).isEmpty = true
      · simp only [hempty, if_true]
        have hne : k ≠ j := by
          rintro rfl
          have hsame : other = vec := Option.some.inj (hj.symm.trans hvec)
          have hmem : e ∈ other.filter (usableStale now) :=
            List.mem_filter.mpr ⟨hsame ▸ he, husable⟩
          rw [List.isEmpty_iff.mp hempty] at hmem
          cases hmem
        exact (Lru.get?_pop_ne hne).trans (Lru.get?_touch.trans hvec)
      · simp only [hempty, Bool.false_eq_true, if_false]
        exact Lru.get?_touch.trans hvec

/-- **The stale records of a key stay**, as long as one of them is usable, unless
the call clears the cache, evicts the key or finds other records of it expired. -/
theorem staleOf_kept {op : CacheOp} (hvec : c.staleOf k = some vec) (he : e ∈ vec)
    (husable : usableStale now e = true) (hclear : op ≠ .clear)
    (hevict : ¬ EvictsStale k c now op) (hfind : ¬ FindsExpired k c now op) :
    (c.apply now op).staleOf k = some vec := by
  cases op with
  | insert j ttl rdata rdlength =>
      rw [apply, staleOf, insert_staleEntries]
      exact hvec
  | lookup j =>
      rcases staleOf_apply c now (.lookup j) k with ⟨main, hop, hmain, hne, _⟩ | hsame | hnone
      · exact absurd ⟨hop, main, hmain, hne⟩ hfind
      · exact hsame.trans hvec
      · rcases lookup_staleEntries c now j with hsame | ⟨main, hmain, hne, hput⟩
        · rw [apply, staleOf, hsame]
          exact hvec
        · -- Another key was moved in, so the key went for lack of room.
          refine absurd ⟨⟨j, rfl, ?_⟩, by rw [hvec]; simp, hnone⟩ hevict
          rintro rfl
          exact hfind ⟨rfl, main, hmain, hne⟩
  | lookupStale j => exact staleOf_lookupStale hvec he husable j
  | purgeExpired => exact staleOf_purgeExpired hvec he husable
  | clear => exact absurd rfl hclear

end Steps

/-! ### The RDATA does not come back -/

/-- The main store has no record with this RDATA under the key. -/
def Absent (c : DnsCache) (k : CacheKey) (rdata : Bytes) : Prop :=
  ∀ vec, c.recordsOf k = some vec → ∀ e ∈ vec, e.record.rdata ≠ rdata

/-- Neither has the stale store. -/
def StaleAbsent (c : DnsCache) (k : CacheKey) (rdata : Bytes) : Prop :=
  ∀ vec, c.staleOf k = some vec → ∀ e ∈ vec, e.record.rdata ≠ rdata

section Absence

variable {c : DnsCache} {now : Nat} {k : CacheKey} {rdata : Bytes} {op : CacheOp}

/-- RDATA that is not cached again stays absent. -/
theorem Absent.apply (h : Absent c k rdata) (hagain : ¬ CachesAgain k rdata op) :
    Absent (c.apply now op) k rdata := by
  intro vec hvec e he
  rcases recordsOf_apply c now op k with ⟨ttl, rdata', rdlength, rfl, httl, hadd⟩ | ⟨_, hfresh⟩ |
    ⟨_, hnone⟩ | ⟨_, _, _, _, _, _, hnone⟩ | hsame
  · rw [hadd] at hvec
    cases hvec
    rcases mem_addEntry he with hold | rfl
    · cases hmain : c.recordsOf k with
      | none =>
          rw [hmain] at hold
          cases hold
      | some main =>
          rw [hmain, Option.getD_some] at hold
          exact h main hmain e hold
    · rintro rfl
      exact hagain ⟨ttl, rdlength, rfl, httl⟩
  · rw [hfresh] at hvec
    obtain ⟨main, hmain, hvec⟩ := Option.bind_eq_some_iff.mp hvec
    exact h main hmain e (mem_freshOf hvec he)
  · rw [hnone] at hvec
    cases hvec
  · rw [hnone] at hvec
    cases hvec
  · exact h vec (hsame ▸ hvec) e he

/-- What is in neither store does not get into the stale one. -/
theorem StaleAbsent.apply (h : StaleAbsent c k rdata) (hmain : Absent c k rdata) :
    StaleAbsent (c.apply now op) k rdata := by
  intro vec hvec e he
  rcases staleOf_apply c now op k with ⟨main, _, hrecords, _, hmoved⟩ | hsame | hnone
  · rw [hmoved] at hvec
    cases hvec
    exact hmain main hrecords e (List.mem_of_mem_filter he)
  · exact h vec (hsame ▸ hvec) e he
  · rw [hnone] at hvec
    cases hvec

/-- A lookup that finds other records expired removes the RDATA. -/
theorem staleAbsent_of_findsExpired (hmain : Absent c k rdata) (hfind : FindsExpired k c now op) :
    StaleAbsent (c.apply now op) k rdata := by
  obtain ⟨rfl, main, hrecords, hne⟩ := hfind
  intro vec hvec e he
  rw [apply, staleOf_lookup hrecords hne] at hvec
  cases hvec
  exact hmain main hrecords e (List.mem_of_mem_filter he)

/-- What is gone stays gone until it is cached again. -/
theorem StaleAbsent.runOps {hist : History} (h : StaleAbsent c k rdata) (hmain : Absent c k rdata)
    (hagain : ∀ op ∈ hist, ¬ CachesAgain k rdata op.2) :
    StaleAbsent (c.runOps hist) k rdata := by
  induction hist generalizing c with
  | nil => exact h
  | cons head rest ih =>
      exact ih (h.apply hmain) (hmain.apply (hagain head List.mem_cons_self))
        fun op hop => hagain op (List.mem_cons_of_mem _ hop)

theorem StaleAbsent.not_retrievable {e : CacheEntry} (h : StaleAbsent c k e.record.rdata) :
    ¬ Retrievable c now k e := by
  rintro ⟨records, hlookup, hmem⟩
  obtain ⟨vec, hvec, rfl⟩ := lookupStale_eq_some hlookup
  obtain ⟨e', he', hsame⟩ := List.mem_map.mp hmem
  have hrdata := congrArg ResourceRecord.rdata hsame
  exact h vec hvec e' (List.mem_of_mem_filter he') hrdata

end Absence

/-! ### Whole continuations -/

section Runs

variable {c : DnsCache} {k : CacheKey} {e : CacheEntry} {vec : List CacheEntry} {s t : Nat}

/-- An entry is usable up to its age. -/
theorem usableStale_of_le {now : Nat} (hnow : now ≤ t) (hage : t < e.expiresAt + staleMaxAge) :
    usableStale now e = true := by
  have hpos : 0 < staleMaxAge := by decide
  rw [usableStale, decide_eq_true_eq]
  omega

/-- From a cache that has the record in the stale store only. -/
theorem retrievable_runOps_iff {hist : History} (hvec : c.staleOf k = some vec) (he : e ∈ vec)
    (hmain : Absent c k e.record.rdata) (hage : t < e.expiresAt + staleMaxAge)
    (hcont : StaleContinuation c s t k e.record.rdata hist) :
    Retrievable (c.runOps hist) t k e ↔ Never (FindsExpired k) c hist := by
  induction hist generalizing c s with
  | nil =>
      have hhere := retrievable_of_mem hvec he (usableStale_of_le (Nat.le_refl t) hage)
      exact ⟨fun _ => trivial, fun _ => hhere⟩
  | cons head rest ih =>
      obtain ⟨now, op⟩ := head
      obtain ⟨⟨-, hordered⟩, hclear, ⟨hevict, hresident⟩, honce⟩ := hcont
      have hmain' : Absent (c.apply now op) k e.record.rdata :=
        hmain.apply (honce _ List.mem_cons_self)
      have honce' : ∀ op ∈ rest, ¬ CachesAgain k e.record.rdata op.2 :=
        fun op hop => honce op (List.mem_cons_of_mem _ hop)
      by_cases hfind : FindsExpired k c now op
      · have hgone : StaleAbsent ((c.apply now op).runOps rest) k e.record.rdata :=
          (staleAbsent_of_findsExpired hmain hfind).runOps hmain' honce'
        exact ⟨fun hthere => absurd hthere hgone.not_retrievable,
          fun hnever => absurd hfind hnever.1⟩
      · have hkept := staleOf_kept hvec he (usableStale_of_le hordered.le hage)
          (hclear _ List.mem_cons_self) hevict hfind
        have hrest := ih hkept hmain' ⟨hordered, fun op hop => hclear op (List.mem_cons_of_mem _ hop),
          hresident, honce'⟩
        exact hrest.trans ⟨fun hnever => ⟨hfind, hnever⟩, And.right⟩

/-- A lookup that finds the record expired leaves it in the stale store only. -/
theorem lookup_moves (hwf : c.Wf) {main : List CacheEntry} (hrecords : c.recordsOf k = some main)
    (hfound : e ∈ expiredOf s main) :
    (c.lookup s k).2.staleOf k = some (expiredOf s main) ∧
      Absent (c.lookup s k).2 k e.record.rdata := by
  obtain ⟨hin, hexpired⟩ := List.mem_filter.mp hfound
  refine ⟨staleOf_lookup hrecords (List.ne_nil_of_mem hfound), ?_⟩
  intro vec hvec e' he' hrdata
  rw [recordsOf_lookup_self, hrecords, Option.bind_some] at hvec
  -- RDATA are distinct, so it would be the same record, and that one has expired.
  have hsame : e' = e := List.inj_on_of_nodup_map (hwf k main hrecords).distinct
    (mem_freshOf hvec he') hin hrdata
  have hlive : e' ∈ main.filter fun e => !e.isExpired s := by
    simp only [freshOf] at hvec
    split at hvec
    · cases hvec
    · cases hvec
      exact he'
  have hfresh := (List.mem_filter.mp hlive).2
  rw [hsame, hexpired] at hfresh
  cases hfresh

end Runs

/-- **How long a stale record is retrievable**: in every history, after a lookup
that found it expired and until six hours after its expiry, exactly as long as no
further lookup of the key finds records expired. -/
theorem staleRetrievable_iff (max : Option Nat) (before after : History) (s t : Nat) (k : CacheKey)
    (main : List CacheEntry) (e : CacheEntry)
    (hrecords : ((create max).runOps before).recordsOf k = some main)
    (hfound : e ∈ expiredOf s main)
    (hcont : StaleContinuation ((create max).runOps (before ++ [(s, .lookup k)])) s t k
      e.record.rdata after)
    (hage : t < e.expiresAt + staleMaxAge) :
    Retrievable ((create max).runOps (before ++ [(s, .lookup k)] ++ after)) t k e ↔
      Never (FindsExpired k) ((create max).runOps (before ++ [(s, .lookup k)])) after := by
  have hmoved := lookup_moves ((wf_create max).runOps before) hrecords hfound
  rw [runOps_append (create max), runOps_concat]
  rw [runOps_concat] at hcont
  exact retrievable_runOps_iff hmoved.1 hfound hmoved.2 hage hcont

/-! ### Two records of one key -/

/-- A record for a minute and one for two minutes. -/
def twoExpiries : History :=
  [(0, .insert sampleKey 60 [192, 0, 2, 1] 4), (0, .insert sampleKey 120 [192, 0, 2, 2] 4)]

theorem twoExpiries_records :
    ((create none).runOps twoExpiries).recordsOf sampleKey =
      some [newEntry 0 sampleKey 60 [192, 0, 2, 1] 4, newEntry 0 sampleKey 120 [192, 0, 2, 2] 4] := by
  decide +kernel

theorem staleRetrievable_iff_twoExpiries :
    Retrievable ((create none).runOps (twoExpiries ++ [(nanos 70, .lookup sampleKey)] ++
      [(nanos 75, .lookupStale sampleKey), (nanos 80, .purgeExpired)])) (nanos 90) sampleKey
      (newEntry 0 sampleKey 60 [192, 0, 2, 1] 4) := by
  refine (staleRetrievable_iff none twoExpiries _ (nanos 70) (nanos 90) sampleKey _ _
    twoExpiries_records (by decide) ?_ (by decide)).mpr ?_
  · refine ⟨by simp [Between, nanos], by simp, ?_, by simp [CachesAgain]⟩
    simp [Never, EvictsStale]
  · simp [Never, FindsExpired]

/-- The first record is found expired after 70 seconds and the second one after
130. Ten seconds later only the second one is retrievable. -/
theorem not_staleRetrievable_twoExpiries :
    ∃ e main, ((create none).runOps twoExpiries).recordsOf sampleKey = some main ∧
      e ∈ expiredOf (nanos 70) main ∧
      StaleContinuation ((create none).runOps (twoExpiries ++ [(nanos 70, .lookup sampleKey)]))
        (nanos 70) (nanos 140) sampleKey e.record.rdata [(nanos 130, .lookup sampleKey)] ∧
      nanos 140 < e.expiresAt + staleMaxAge ∧
      ¬ Retrievable ((create none).runOps (twoExpiries ++ [(nanos 70, .lookup sampleKey)] ++
        [(nanos 130, .lookup sampleKey)])) (nanos 140) sampleKey e := by
  refine ⟨newEntry 0 sampleKey 60 [192, 0, 2, 1] 4, _, twoExpiries_records, by decide, ?_,
    by decide, ?_⟩
  · refine ⟨by simp [Between, nanos], by simp, ?_, by simp [CachesAgain]⟩
    simp [Never, EvictsStale]
  · have hstale : (((create none).runOps (twoExpiries ++ [(nanos 70, .lookup sampleKey)] ++
        [(nanos 130, .lookup sampleKey)])).lookupStale (nanos 140) sampleKey).1 =
        some [{ (newEntry 0 sampleKey 120 [192, 0, 2, 2] 4).record with ttl := 0 }] := by
      decide +kernel
    rintro ⟨records, hlookup, hmem⟩
    rw [hstale] at hlookup
    cases hlookup
    revert hmem
    decide

end FastDns.Resolver.DnsCache
