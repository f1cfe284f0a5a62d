/-
How long the cache serves a record.

A record is inserted at time `s` with a TTL that ends at `expiry s ttl`. What
may happen afterwards is a continuation: calls in order of time, without
`clear`, without an eviction of the key and with fewer than sixteen further
insertions under it. `StaysFresh` says that every lookup of the key before the
expiry then returns the RDATA.

The records of a key are ordered by age, so after `n` further insertions at
most `n` records stand behind the inserted one, and it is the last to go
(`Kept`). An insertion of RDATA that is already there stores nothing; the old
entry then has to do, with its own expiry and its own place in the list. The
two together give the exact condition (`staysFresh_iff`).
-/

import FastDns.Resolver.Cache
import Mathlib.Data.Fintype.EquivFin

namespace FastDns.Resolver.DnsCache

open FastDns.Lib FastDns.Dns

/-! ### Continuations -/

/-- The calls are made in order, none before `s` and none after `t`. -/
def Between (s t : Nat) : History → Prop
  | [] => s ≤ t
  | (now, _) :: rest => s ≤ now ∧ Between now t rest

/-- The call is an insertion under `k` that is not refused for its TTL. -/
def InsertsUnder (k : CacheKey) : CacheOp → Bool
  | .insert j ttl _ _ => j == k && ttl != 0
  | _ => false

/-- The number of insertions under `k`. -/
def insertionsUnder (k : CacheKey) (hist : History) : Nat :=
  (hist.filter fun op => InsertsUnder k op.2).length

/-- The call is an insertion under another key and makes room at the cost of `k`. -/
def Evicts (c : DnsCache) (now : Nat) (op : CacheOp) (k : CacheKey) : Prop :=
  (∃ j ttl rdata rdlength, op = .insert j ttl rdata rdlength ∧ j ≠ k) ∧
    c.recordsOf k ≠ none ∧ (c.apply now op).recordsOf k = none

/-- No call of the history evicts `k`. -/
def NeverEvicts (k : CacheKey) : DnsCache → History → Prop
  | _, [] => True
  | c, (now, op) :: rest => ¬ Evicts c now op k ∧ NeverEvicts k (c.apply now op) rest

/-- A lookup returns a record with this RDATA. -/
def Serves (c : DnsCache) (now : Nat) (k : CacheKey) (rdata : Bytes) : Prop :=
  ∃ records ttl, (c.lookup now k).1 = some (records, ttl) ∧ ∃ r ∈ records, r.rdata = rdata

/-- What may happen between the insertion at `s` and a lookup at `t`. -/
structure Continuation (c : DnsCache) (s t : Nat) (k : CacheKey) (hist : History) : Prop where
  ordered : Between s t hist
  kept : ∀ op ∈ hist, op.2 ≠ .clear
  resident : NeverEvicts k c hist
  few : insertionsUnder k hist < maxRecordsPerKey

/-- The record inserted at `s` is served until it expires. -/
def StaysFresh (c : DnsCache) (s : Nat) (k : CacheKey) (ttl : UInt32) (rdata : Bytes)
    (rdlength : UInt16) : Prop :=
  ∀ hist t, Continuation (c.insert s k ttl rdata rdlength) s t k hist → t < expiry s ttl →
    Serves ((c.insert s k ttl rdata rdlength).runOps hist) t k rdata

/-- The insertion takes effect: the RDATA is new to its key, or the newest
record of the key has it and lives as long as the new one would. -/
def TakesEffect (c : DnsCache) (s : Nat) (k : CacheKey) (ttl : UInt32) (rdata : Bytes) : Prop :=
  ∀ vec, c.recordsOf k = some vec →
    (∀ e ∈ vec, e.record.rdata ≠ rdata) ∨
      ∃ e, vec.getLast? = some e ∧ e.record.rdata = rdata ∧ expiry s ttl ≤ e.expiresAt

theorem Between.le {s t : Nat} {hist : History} (h : Between s t hist) : s ≤ t := by
  induction hist generalizing s with
  | nil => exact h
  | cons head rest ih => exact Nat.le_trans h.1 (ih h.2)

theorem insertionsUnder_cons (k : CacheKey) (now : Nat) (op : CacheOp) (rest : History) :
    insertionsUnder k ((now, op) :: rest) =
      (if InsertsUnder k op then 1 else 0) + insertionsUnder k rest := by
  unfold insertionsUnder
  rw [List.filter_cons]
  split
  · rw [List.length_cons, Nat.add_comm]
  · rw [Nat.zero_add]

/-! ### What a lookup returns -/

section Serving

variable {c : DnsCache} {now : Nat} {k : CacheKey} {rdata : Bytes}

theorem serves_iff :
    Serves c now k rdata ↔
      ∃ vec, c.recordsOf k = some vec ∧ ∃ e ∈ vec, e.record.rdata = rdata ∧ now < e.expiresAt := by
  unfold Serves lookup recordsOf
  cases h : c.entries.get? k with
  | none => simp
  | some vec =>
      simp only [Option.some.injEq, exists_eq_left']
      have hmem : ∀ e, e ∈ (vec.filter fun e => !e.isExpired now) ↔
          e ∈ vec ∧ now < e.expiresAt := by
        intro e
        simp [CacheEntry.isExpired]
      by_cases hfresh : (vec.filter fun e => !e.isExpired now).isEmpty = true
      · simp only [hfresh, if_true]
        constructor
        · rintro ⟨_, _, hnone, _⟩
          cases hnone
        · rintro ⟨e, he, _, hlive⟩
          have := (hmem e).mpr ⟨he, hlive⟩
          rw [List.isEmpty_iff.mp hfresh] at this
          cases this
      · simp only [hfresh, Bool.false_eq_true, if_false]
        constructor
        · rintro ⟨records, _, hsome, r, hr, hrdata⟩
          cases hsome
          obtain ⟨e, he, rfl⟩ := List.mem_map.mp hr
          obtain ⟨he, hlive⟩ := (hmem e).mp he
          exact ⟨e, he, hrdata, hlive⟩
        · rintro ⟨e, he, hrdata, hlive⟩
          refine ⟨_, _, rfl, { e.record with ttl := e.ttlRemaining now }, ?_, hrdata⟩
          exact List.mem_map.mpr ⟨e, (hmem e).mpr ⟨he, hlive⟩, rfl⟩

end Serving

/-! ### The record stays -/

/-- The key has a record with this RDATA that lives until the deadline, and at
most `n` records stand behind it. -/
def Kept (c : DnsCache) (k : CacheKey) (rdata : Bytes) (deadline n : Nat) : Prop :=
  ∃ pre e post, c.recordsOf k = some (pre ++ e :: post) ∧ e.record.rdata = rdata ∧
    deadline ≤ e.expiresAt ∧ post.length ≤ n

section Keeping

variable {c : DnsCache} {k : CacheKey} {rdata : Bytes} {deadline n : Nat}

/-- A further insertion puts one more record behind the kept one, which is not
the one to be dropped while fewer than sixteen were inserted. -/
theorem kept_addEntry {pre post : List CacheEntry} {e : CacheEntry} (hpost : post.length ≤ n)
    (hn : n + 1 < maxRecordsPerKey) (entry : CacheEntry) :
    ∃ pre' post', addEntry (pre ++ e :: post) entry = pre' ++ e :: post' ∧
      post'.length ≤ n + 1 := by
  unfold addEntry pushEntry
  by_cases hdup : hasRdata (pre ++ e :: post) entry.record.rdata = true
  · rw [if_pos hdup]
    exact ⟨pre, post, rfl, Nat.le_succ_of_le hpost⟩
  rw [if_neg hdup]
  by_cases hfull : (pre ++ e :: post).length ≥ maxRecordsPerKey
  · rw [if_pos hfull]
    cases pre with
    | nil =>
        simp only [List.nil_append, List.length_cons] at hfull
        omega
    | cons p pre => exact ⟨pre, post ++ [entry], by simp, by simpa using hpost⟩
  · rw [if_neg hfull]
    exact ⟨pre, post ++ [entry], by simp, by simpa using hpost⟩

/-- Before the deadline a lookup keeps the record, and drops others at most. -/
theorem kept_freshOf {now : Nat} {pre post : List CacheEntry} {e : CacheEntry}
    (hpost : post.length ≤ n) (hlive : now < e.expiresAt) :
    ∃ pre' post', freshOf now (pre ++ e :: post) = some (pre' ++ e :: post') ∧
      post'.length ≤ n := by
  refine ⟨pre.filter fun e => !e.isExpired now, post.filter fun e => !e.isExpired now, ?_,
    Nat.le_trans (List.length_filter_le _ _) hpost⟩
  have hkeep : (!e.isExpired now) = true := by simpa [CacheEntry.isExpired] using hlive
  simp [freshOf, hkeep]

/-- **One call before the deadline keeps the record.** -/
theorem Kept.apply {now : Nat} {op : CacheOp} (h : Kept c k rdata deadline n)
    (hnow : now < deadline) (hclear : op ≠ .clear) (hevict : ¬ Evicts c now op k)
    (hn : InsertsUnder k op = true → n + 1 < maxRecordsPerKey) :
    Kept (c.apply now op) k rdata deadline (if InsertsUnder k op then n + 1 else n) := by
  obtain ⟨pre, e, post, hvec, hrdata, hdeadline, hpost⟩ := h
  rcases recordsOf_apply c now op k with ⟨ttl, rdata', rdlength, rfl, httl, hadd⟩ | ⟨rfl, hfresh⟩ |
    ⟨rfl, _⟩ | ⟨j, ttl, rdata', rdlength, rfl, hne, hnone⟩ | hsame
  · have hins : InsertsUnder k (.insert k ttl rdata' rdlength) = true := by
      simp [InsertsUnder, httl]
    obtain ⟨pre', post', hsplit, hlen⟩ :=
      kept_addEntry hpost (hn hins) (newEntry now k ttl rdata' rdlength)
    refine ⟨pre', e, post', ?_, hrdata, hdeadline, by rw [if_pos hins]; exact hlen⟩
    rw [hadd, hvec, Option.getD_some, hsplit]
  · obtain ⟨pre', post', hsplit, hlen⟩ :=
      kept_freshOf hpost (Nat.lt_of_lt_of_le hnow hdeadline)
    refine ⟨pre', e, post', ?_, hrdata, hdeadline, hlen⟩
    rw [hfresh, hvec, Option.bind_some, hsplit]
  · exact absurd rfl hclear
  · refine absurd ⟨⟨j, ttl, rdata', rdlength, rfl, hne⟩, ?_, hnone⟩ hevict
    rw [hvec]
    simp
  · refine ⟨pre, e, post, hsame.trans hvec, hrdata, hdeadline, ?_⟩
    split
    · exact Nat.le_succ_of_le hpost
    · exact hpost

/-- **A continuation before the deadline keeps the record.** -/
theorem Kept.runOps {s t : Nat} {hist : History} (h : Kept c k rdata deadline n)
    (hordered : Between s t hist) (ht : t < deadline) (hclear : ∀ op ∈ hist, op.2 ≠ .clear)
    (hevict : NeverEvicts k c hist) (hfew : n + insertionsUnder k hist < maxRecordsPerKey) :
    Kept (c.runOps hist) k rdata deadline (n + insertionsUnder k hist) := by
  induction hist generalizing c s n with
  | nil => exact h
  | cons head rest ih =>
      obtain ⟨now, op⟩ := head
      obtain ⟨_, hrest⟩ := hordered
      obtain ⟨hhead, hevict⟩ := hevict
      have hnow : now < deadline := Nat.lt_of_le_of_lt hrest.le ht
      have hcount : n + insertionsUnder k ((now, op) :: rest) =
          (if InsertsUnder k op then n + 1 else n) + insertionsUnder k rest := by
        rw [insertionsUnder_cons]
        split <;> omega
      rw [hcount] at hfew ⊢
      have hstep := h.apply hnow (hclear _ List.mem_cons_self) hhead
        (by
          intro hins
          rw [if_pos hins] at hfew
          exact Nat.lt_of_le_of_lt (Nat.le_add_right _ _) hfew)
      exact ih hstep hrest (fun op hop => hclear op (List.mem_cons_of_mem _ hop)) hevict hfew

/-- An insertion that takes effect leaves its record as the newest one. -/
theorem kept_insert {s : Nat} {ttl : UInt32} (httl : ttl ≠ 0) (rdlength : UInt16)
    (h : TakesEffect c s k ttl rdata) :
    Kept (c.insert s k ttl rdata rdlength) k rdata (expiry s ttl) 0 := by
  have hrecords : (c.insert s k ttl rdata rdlength).recordsOf k = some _ :=
    recordsOf_insert_self httl rdata rdlength
  have hpush : ∀ vec, hasRdata vec rdata = false →
      ∃ pre, addEntry vec (newEntry s k ttl rdata rdlength) =
        pre ++ [newEntry s k ttl rdata rdlength] := by
    intro vec hnew
    exact ⟨_, by rw [addEntry, if_neg (by simpa [newEntry] using hnew), pushEntry]⟩
  cases hvec : c.recordsOf k with
  | none =>
      obtain ⟨pre, hpre⟩ := hpush [] rfl
      exact ⟨pre, _, [], by rw [hrecords, hvec, Option.getD_none, hpre], rfl, Nat.le_refl _,
        Nat.le_refl _⟩
  | some vec =>
      rw [hvec, Option.getD_some] at hrecords
      rcases h vec hvec with hnew | ⟨e, hlast, hrdata, hlive⟩
      · have hno : hasRdata vec rdata = false := by
          rw [Bool.eq_false_iff, ne_eq, hasRdata_iff]
          rintro ⟨e, he, hsame⟩
          exact hnew e he hsame
        obtain ⟨pre, hpre⟩ := hpush vec hno
        exact ⟨pre, _, [], by rw [hrecords, hpre], rfl, Nat.le_refl _, Nat.le_refl _⟩
      · have hdup : hasRdata vec rdata = true :=
          hasRdata_iff.mpr ⟨e, List.mem_of_getLast? hlast, hrdata⟩
        obtain ⟨pre, rfl⟩ := List.getLast?_eq_some_iff.mp hlast
        refine ⟨pre, e, [], ?_, hrdata, hlive, Nat.le_refl _⟩
        rw [hrecords, addEntry, if_pos (by simpa [newEntry] using hdup)]

end Keeping

/-! ### The record goes -/

/-- Every record with this RDATA has at least `n` records behind it. -/
def Buried (c : DnsCache) (k : CacheKey) (rdata : Bytes) (n : Nat) : Prop :=
  ∃ vec, c.recordsOf k = some vec ∧
    ∀ pre e post, vec = pre ++ e :: post → e.record.rdata = rdata → n ≤ post.length

section Burying

variable {c : DnsCache} {k : CacheKey} {rdata : Bytes} {s n : Nat}

/-- What stands behind a record that is not the one appended. -/
theorem split_of_concat {α : Type} {old pre post : List α} {a e : α}
    (h : old ++ [a] = pre ++ e :: post) (hne : e ≠ a) :
    ∃ body, post = body ++ [a] ∧ old = pre ++ e :: body := by
  rcases List.eq_nil_or_concat post with rfl | ⟨body, x, rfl⟩
  · have hlast := (List.append_inj' h rfl).2
    cases hlast
    exact absurd rfl hne
  · have hconcat : old ++ [a] = (pre ++ e :: body) ++ [x] := by simpa using h
    obtain ⟨hold, hx⟩ := List.append_inj' hconcat rfl
    cases hx
    exact ⟨body, by simp, hold⟩

/-- An insertion of new RDATA puts one more record behind. -/
theorem Buried.insert {other : Bytes} (hne : other ≠ rdata)
    (hnew : ∀ vec, c.recordsOf k = some vec → hasRdata vec other = false)
    (h : Buried c k rdata n) : Buried (c.insert s k 1 other 0) k rdata (n + 1) := by
  obtain ⟨vec, hvec, hburied⟩ := h
  refine ⟨_, recordsOf_insert_self (by decide) other 0, ?_⟩
  intro pre e post hsplit hrdata
  rw [hvec, Option.getD_some, addEntry, if_neg (by simpa [newEntry] using hnew vec hvec),
    pushEntry] at hsplit
  have hold : e ≠ newEntry s k 1 other 0 := by
    rintro rfl
    exact hne hrdata
  obtain ⟨body, rfl, hbody⟩ := split_of_concat hsplit hold
  rw [List.length_append]
  refine Nat.succ_le_succ ?_
  split at hbody
  · cases vec with
    | nil => simp at hbody
    | cons x xs =>
        rw [List.drop_one, List.tail_cons] at hbody
        exact hburied (x :: pre) e body (by rw [hbody]; rfl) hrdata
  · exact hburied pre e body hbody hrdata

theorem exists_new_rdata (rdata : Bytes) (vec : List CacheEntry) :
    ∃ other, other ≠ rdata ∧ hasRdata vec other = false := by
  obtain ⟨other, hother⟩ :=
    Infinite.exists_notMem_finset (rdata :: vec.map fun e => e.record.rdata).toFinset
  simp only [List.mem_toFinset, List.mem_cons, List.mem_map, not_or, not_exists, not_and] at hother
  refine ⟨other, hother.1, ?_⟩
  rw [Bool.eq_false_iff, ne_eq, hasRdata_iff]
  rintro ⟨e, he, hsame⟩
  exact hother.2 e he hsame

/-- Insertions under `k` at one moment. -/
def Burst (k : CacheKey) (s : Nat) (hist : History) : Prop :=
  ∀ op ∈ hist, ∃ ttl rdata rdlength, op = (s, .insert k ttl rdata rdlength)

/-- Any number of insertions, each of which buries the record deeper. -/
theorem exists_burying (s : Nat) (h : Buried c k rdata n) (m : Nat) :
    ∃ hist, Burst k s hist ∧ hist.length = m ∧ Buried (c.runOps hist) k rdata (n + m) := by
  induction m with
  | zero => exact ⟨[], by simp [Burst], rfl, h⟩
  | succ m ih =>
      obtain ⟨hist, hburst, hlen, hburied⟩ := ih
      obtain ⟨vec, hvec, _⟩ := id hburied
      obtain ⟨other, hne, hnew⟩ := exists_new_rdata rdata vec
      refine ⟨hist ++ [(s, .insert k 1 other 0)], ?_, by rw [List.length_append, hlen]; rfl, ?_⟩
      · intro op hop
        rcases List.mem_append.mp hop with hop | hop
        · exact hburst op hop
        · exact ⟨1, other, 0, List.mem_singleton.mp hop⟩
      · rw [runOps_append]
        refine hburied.insert hne ?_
        intro vec' hvec'
        rw [hvec] at hvec'
        cases hvec'
        exact hnew

/-- A burst of fewer than sixteen insertions is a continuation. -/
theorem Burst.continuation {hist : History} (h : Burst k s hist)
    (hlen : hist.length < maxRecordsPerKey) : Continuation c s s k hist where
  ordered := by
    clear hlen
    induction hist with
    | nil => exact Nat.le_refl s
    | cons head rest ih =>
        obtain ⟨ttl, rdata, rdlength, rfl⟩ := h _ List.mem_cons_self
        exact ⟨Nat.le_refl s, ih fun op hop => h op (List.mem_cons_of_mem _ hop)⟩
  kept := by
    intro op hop
    obtain ⟨ttl, rdata, rdlength, rfl⟩ := h op hop
    exact CacheOp.noConfusion
  resident := by
    clear hlen
    induction hist generalizing c with
    | nil => trivial
    | cons head rest ih =>
        obtain ⟨ttl, rdata, rdlength, rfl⟩ := h _ List.mem_cons_self
        refine ⟨?_, ih fun op hop => h op (List.mem_cons_of_mem _ hop)⟩
        rintro ⟨⟨j, _, _, _, hop, hne⟩, _⟩
        cases hop
        exact hne rfl
  few := Nat.lt_of_le_of_lt (List.length_filter_le _ _) hlen

/-- A record buried under sixteen others is gone. -/
theorem Buried.not_serves {now : Nat} (hwf : c.Wf) (h : Buried c k rdata maxRecordsPerKey) :
    ¬ Serves c now k rdata := by
  rw [serves_iff]
  rintro ⟨vec, hvec, e, he, hrdata, _⟩
  obtain ⟨vec', hvec', hburied⟩ := h
  rw [hvec] at hvec'
  cases hvec'
  obtain ⟨pre, post, rfl⟩ := List.append_of_mem he
  have hdeep := hburied pre e post rfl hrdata
  have hcap := (hwf k _ hvec).capped
  rw [List.length_append, List.length_cons] at hcap
  omega

end Burying

/-! ### The exact condition -/

theorem lt_expiry {s : Nat} {ttl : UInt32} (httl : ttl ≠ 0) : s < expiry s ttl := by
  have hpos : 0 < (min ttl 86400).toNat := by
    change 0 < (if ttl ≤ 86400 then ttl else 86400).toNat
    split
    · exact Nat.pos_of_ne_zero fun hzero => httl (UInt32.toNat_inj.mp hzero)
    · decide
  unfold expiry nanos
  omega

/-- RDATA that is there already is not inserted again. -/
theorem recordsOf_insert_again {c : DnsCache} {k : CacheKey} {vec : List CacheEntry}
    {e : CacheEntry} {ttl : UInt32} (httl : ttl ≠ 0) (s : Nat) (rdlength : UInt16)
    (hvec : c.recordsOf k = some vec) (he : e ∈ vec) :
    (c.insert s k ttl e.record.rdata rdlength).recordsOf k = some vec := by
  have hdup : hasRdata vec e.record.rdata = true := hasRdata_iff.mpr ⟨e, he, rfl⟩
  rw [recordsOf_insert_self httl, hvec, Option.getD_some, addEntry,
    if_pos (by simpa [newEntry] using hdup)]

section Again

variable {c : DnsCache} {s : Nat} {k : CacheKey} {ttl : UInt32} {rdlength : UInt16}
  {vec : List CacheEntry} {e : CacheEntry}

/-- Only the last record of a key is safe from being buried by fifteen others. -/
theorem StaysFresh.last (hfresh : StaysFresh c s k ttl e.record.rdata rdlength) (hwf : c.Wf)
    (httl : ttl ≠ 0) (hvec : c.recordsOf k = some vec) (he : e ∈ vec)
    (hunique : ∀ e' ∈ vec, e'.record.rdata = e.record.rdata → e' = e) :
    vec.getLast? = some e := by
  by_contra hlast
  have hburied : Buried (c.insert s k ttl e.record.rdata rdlength) k e.record.rdata 1 := by
    refine ⟨vec, recordsOf_insert_again httl s rdlength hvec he, ?_⟩
    intro pre e' post hsplit hrdata'
    cases post with
    | nil =>
        have he' : e' ∈ vec := by rw [hsplit]; simp
        rw [hunique e' he' hrdata'] at hsplit
        exact absurd (by rw [hsplit]; simp) hlast
    | cons x post => exact Nat.succ_le_succ (Nat.zero_le _)
  obtain ⟨hist, hburst, hlen, hdeep⟩ := exists_burying s hburied 15
  have hcont := hburst.continuation (c := c.insert s k ttl e.record.rdata rdlength)
    (by rw [hlen]; decide)
  have hwf' : ((c.insert s k ttl e.record.rdata rdlength).runOps hist).Wf :=
    (hwf.apply s (.insert k ttl e.record.rdata rdlength)).runOps hist
  exact hdeep.not_serves hwf' (hfresh hist s hcont (lt_expiry httl))

/-- A record that is there already keeps its own deadline. -/
theorem StaysFresh.expiry_le (hfresh : StaysFresh c s k ttl e.record.rdata rdlength)
    (httl : ttl ≠ 0) (hvec : c.recordsOf k = some vec) (he : e ∈ vec)
    (hunique : ∀ e' ∈ vec, e'.record.rdata = e.record.rdata → e' = e) :
    expiry s ttl ≤ e.expiresAt := by
  by_contra hshort
  have hcont : Continuation (c.insert s k ttl e.record.rdata rdlength) s (max s e.expiresAt) k [] :=
    ⟨Nat.le_max_left _ _, by simp, trivial, Nat.succ_pos 15⟩
  have hbefore : max s e.expiresAt < expiry s ttl :=
    Nat.max_lt.mpr ⟨lt_expiry httl, Nat.lt_of_not_le hshort⟩
  obtain ⟨vec', hvec', e', he', hrdata', hlive⟩ := serves_iff.mp (hfresh [] _ hcont hbefore)
  rw [runOps, recordsOf_insert_again httl s rdlength hvec he] at hvec'
  cases hvec'
  rw [hunique e' he' hrdata'] at hlive
  exact absurd hlive (Nat.not_lt_of_le (Nat.le_max_right _ _))

end Again

/-- **A record inserted into a reachable cache is served until its expiry if
and only if its insertion takes effect.** -/
theorem staysFresh_iff {c : DnsCache} (hc : c.Reachable) (s : Nat) (k : CacheKey) {ttl : UInt32}
    (httl : ttl ≠ 0) (rdata : Bytes) (rdlength : UInt16) :
    StaysFresh c s k ttl rdata rdlength ↔ TakesEffect c s k ttl rdata := by
  constructor
  · intro hfresh vec hvec
    by_cases hnew : ∀ e ∈ vec, e.record.rdata ≠ rdata
    · exact .inl hnew
    refine .inr ?_
    simp only [not_forall, not_not] at hnew
    obtain ⟨e, he, rfl⟩ := hnew
    have hunique : ∀ e' ∈ vec, e'.record.rdata = e.record.rdata → e' = e := fun e' he' hrdata' =>
      List.inj_on_of_nodup_map (hc.wf k vec hvec).distinct he' he hrdata'
    exact ⟨e, hfresh.last hc.wf httl hvec he hunique, rfl, hfresh.expiry_le httl hvec he hunique⟩
  · intro heffect hist t hcont ht
    have hkept := (kept_insert httl rdlength heffect).runOps hcont.ordered ht hcont.kept
      hcont.resident (by rw [Nat.zero_add]; exact hcont.few)
    obtain ⟨pre, e, post, hvec, hrdata, hdeadline, _⟩ := hkept
    exact serves_iff.mpr ⟨_, hvec, e, by simp, hrdata, Nat.lt_of_lt_of_le ht hdeadline⟩

/-- The A record of `a.test`. -/
def sampleKey : CacheKey := ([1, 0x61, 4, 0x74, 0x65, 0x73, 0x74, 0], 1, 1)

theorem staysFresh_first_insertion : StaysFresh new 0 sampleKey 60 [192, 0, 2, 1] 4 :=
  (staysFresh_iff ⟨[], .inl rfl⟩ 0 sampleKey (by decide) _ _).mpr fun vec hvec => by cases hvec

/-- A record inserted for a minute and again half a minute later is gone after
seventy seconds, although the second insertion asks for ninety. -/
theorem not_staysFresh_second_insertion :
    (new.insert 0 sampleKey 60 [192, 0, 2, 1] 4).Reachable ∧
      ¬ StaysFresh (new.insert 0 sampleKey 60 [192, 0, 2, 1] 4) (nanos 30) sampleKey 60
        [192, 0, 2, 1] 4 := by
  refine ⟨⟨[(0, .insert sampleKey 60 [192, 0, 2, 1] 4)], .inl rfl⟩, ?_⟩
  intro hfresh
  obtain ⟨records, ttl, hlookup, _⟩ := hfresh [] (nanos 70)
    ⟨by simp [Between, nanos], by simp, trivial, Nat.succ_pos 15⟩ (by decide)
  have hgone : ((((new.insert 0 sampleKey 60 [192, 0, 2, 1] 4).insert (nanos 30) sampleKey 60
      [192, 0, 2, 1] 4).runOps []).lookup (nanos 70) sampleKey).1 = none := by
    decide +kernel
  rw [hgone] at hlookup
  cases hlookup

end FastDns.Resolver.DnsCache
