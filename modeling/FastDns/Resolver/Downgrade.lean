/-
Answers that come without signatures (`src/resolver/recursive.rs`: the missing
signature check).

An answer for which neither a signature nor a key was obtained is rejected if
the cache has DS records of a zone above the name. The check walks over the
suffixes of the name from the second label on, so the name itself is not among
them, and it asks the cache for the lower-case encoding of the text of each
suffix. DS questions are not checked at all. `unsignedAnswer_rejected_iff` is
the exact condition under which such an answer is rejected.
-/

import FastDns.Resolver.CachedKeys
import FastDns.Resolver.Shape

namespace FastDns.Resolver

open FastDns.Lib FastDns.Dns FastDns.Dnssec

/-! ### Records that are alive -/

namespace DnsCache

/-- The key has a record that has not expired. -/
def LiveAt (c : DnsCache) (now : Nat) (k : CacheKey) : Prop :=
  ∃ vec, c.recordsOf k = some vec ∧ ∃ e ∈ vec, now < e.expiresAt

section Live

variable {c : DnsCache} {now t : Nat} {k : CacheKey}

theorem mem_fresh_iff {vec : List CacheEntry} {e : CacheEntry} :
    e ∈ (vec.filter fun e => !e.isExpired now) ↔ e ∈ vec ∧ now < e.expiresAt := by
  simp [CacheEntry.isExpired]

/-- A lookup returns something exactly when there is a live record. -/
theorem served_ne_nil_iff : c.served now k ≠ [] ↔ c.LiveAt now k := by
  unfold served lookup LiveAt recordsOf
  cases c.entries.get? k with
  | none => simp
  | some vec =>
      simp only [Option.some.injEq, exists_eq_left']
      by_cases hfresh : (vec.filter fun e => !e.isExpired now).isEmpty = true
      · simp only [hfresh, if_true, Option.map_none, Option.getD_none, ne_eq, not_true, false_iff]
        rintro ⟨e, he, hlive⟩
        have hmem := mem_fresh_iff.mpr ⟨he, hlive⟩
        rw [List.isEmpty_iff.mp hfresh] at hmem
        cases hmem
      · simp only [hfresh, Bool.false_eq_true, if_false, Option.map_some, Option.getD_some]
        have hne : (vec.filter fun e => !e.isExpired now) ≠ [] := by simpa using hfresh
        refine ⟨?_, ?_⟩
        · intro _
          obtain ⟨e, he⟩ := List.exists_mem_of_ne_nil _ hne
          exact ⟨e, mem_fresh_iff.mp he⟩
        · intro _ hnil
          exact hne (List.map_eq_nil_iff.mp hnil)

/-- A lookup takes no record away that is alive later. -/
theorem liveAt_lookup {j : CacheKey} (hle : now ≤ t) :
    (c.lookup now j).2.LiveAt t k ↔ c.LiveAt t k := by
  unfold LiveAt
  by_cases hkj : k = j
  · subst hkj
    rw [recordsOf_lookup_self]
    constructor
    · rintro ⟨vec', hvec', e, he, hlive⟩
      obtain ⟨vec, hvec, hfresh⟩ := Option.bind_eq_some_iff.mp hvec'
      exact ⟨vec, hvec, e, mem_freshOf hfresh he, hlive⟩
    · rintro ⟨vec, hvec, e, he, hlive⟩
      have hmem : e ∈ vec.filter fun e => !e.isExpired now :=
        mem_fresh_iff.mpr ⟨he, Nat.lt_of_le_of_lt hle hlive⟩
      refine ⟨vec.filter fun e => !e.isExpired now, ?_, e, hmem, hlive⟩
      rw [hvec, Option.bind_some, freshOf, if_neg]
      intro hempty
      rw [List.isEmpty_iff.mp hempty] at hmem
      cases hmem
  · rw [recordsOf_lookup_ne hkj]

end Live

end DnsCache

/-! ### The check -/

/-- The key under which DS records of the rightmost `n` labels are looked up. -/
def dsKey (name : Bytes) (rclass : UInt16) (n : Nat) : Option CacheKey := do
  let zone ← (namePrefix name n).toOption
  let encoded ← (encodeDomainName (labelsToString zone)).toOption
  pure (encoded, 43, rclass)

/-- The number of lookups for the suffixes of more than `n` and at most `k` labels. -/
def lookupsBetween (name : Bytes) (rclass : UInt16) (n k : Nat) : Nat :=
  (List.range' (n + 1) (k - n)).countP fun m => (dsKey name rclass m).isSome

/-- A walk that starts with `k` labels at reading `tick` finds DS records of the
suffix of `n` labels alive when it looks for them. -/
def DsFound (env : Env) (c : DnsCache) (tick : Nat) (name : Bytes) (rclass : UInt16) (k n : Nat) :
    Prop :=
  ∃ key, dsKey name rclass n = some key ∧
    c.LiveAt (env.clock (tick + lookupsBetween name rclass n k)) key

section Check

variable {env : Env} {name : Bytes} {rclass : UInt16}

/-- The state after a lookup. -/
def St.afterCacheLookup (env : Env) (key : CacheKey) (s : St) : St :=
  { s with
    tick := s.tick + 1
    shared := { s.shared with cache := (s.shared.cache.lookup (env.clock s.tick) key).2 } }

theorem resolveDnssec_of_ok {text encoded : Bytes} (h : encodeDomainName text = .ok encoded)
    (rtype : UInt16) (s : St) :
    resolveDnssec text rtype rclass env s =
      .ok (s.shared.cache.served (env.clock s.tick) (encoded, rtype, rclass),
        s.afterCacheLookup env (encoded, rtype, rclass)) := by
  unfold resolveDnssec
  rw [h]
  rfl

theorem resolveDnssec_of_err {text : Bytes} {e : DnsError} (h : encodeDomainName text = .err e)
    (rtype : UInt16) (s : St) : resolveDnssec text rtype rclass env s = .ok ([], s) := by
  unfold resolveDnssec
  rw [h]
  rfl

/-- One more label in front is one more lookup, if its suffix can be encoded. -/
theorem lookupsBetween_succ {n k : Nat} (hle : n ≤ k) :
    lookupsBetween name rclass n (k + 1) =
      lookupsBetween name rclass n k + (if (dsKey name rclass (k + 1)).isSome then 1 else 0) := by
  have hend : n + 1 + (k - n) = k + 1 := by omega
  unfold lookupsBetween
  rw [Nat.succ_sub hle, List.range'_1_concat, List.countP_append, List.countP_singleton, hend]

/-- The walk looks at the longest suffix first. -/
theorem dsFound_succ_iff {c : DnsCache} {tick k : Nat} :
    (∃ n, 2 ≤ n ∧ n ≤ k + 2 ∧ DsFound env c tick name rclass (k + 2) n) ↔
      DsFound env c tick name rclass (k + 2) (k + 2) ∨
        ∃ n, 2 ≤ n ∧ n ≤ k + 1 ∧ DsFound env c tick name rclass (k + 2) n := by
  constructor
  · rintro ⟨n, htwo, hle, hfound⟩
    by_cases hn : n = k + 2
    · subst hn
      exact .inl hfound
    · exact .inr ⟨n, htwo, by omega, hfound⟩
  · rintro (hfound | ⟨n, htwo, hle, hfound⟩)
    · exact ⟨k + 2, by omega, Nat.le_refl _, hfound⟩
    · exact ⟨n, htwo, by omega, hfound⟩

/-- What is left of the check after one suffix. -/
def restOfCheck (name : Bytes) (rclass : UInt16) (k : Nat) (zone : Bytes) : Resolve Unit := do
  let dsRecords ← resolveDnssec (labelsToString zone) 43 rclass
  if !dsRecords.isEmpty then fail (.malformed "DNSSEC: signed zone returned unsigned answer")
  else checkMissingSignature name rclass k

theorem dsKey_of_ok {n : Nat} {zone encoded : Bytes} (hzone : namePrefix name n = .ok zone)
    (hencoded : encodeDomainName (labelsToString zone) = .ok encoded) :
    dsKey name rclass n = some (encoded, 43, rclass) := by
  simp [dsKey, hzone, hencoded, Outcome.toOption]

theorem dsKey_of_err {n : Nat} {zone : Bytes} {e : DnsError} (hzone : namePrefix name n = .ok zone)
    (herror : encodeDomainName (labelsToString zone) = .err e) : dsKey name rclass n = none := by
  simp [dsKey, hzone, herror, Outcome.toOption]

/-- A suffix that cannot be encoded is passed over. -/
theorem restOfCheck_skip {k : Nat} {zone : Bytes} {e : DnsError}
    (hzone : namePrefix name (k + 2) = .ok zone)
    (herror : encodeDomainName (labelsToString zone) = .err e) (s : St)
    (ih : ∀ s : St, (∃ e s', checkMissingSignature name rclass (k + 1) env s = .err (.error e, s')) ↔
      ∃ n, 2 ≤ n ∧ n ≤ k + 1 ∧ DsFound env s.shared.cache s.tick name rclass (k + 1) n) :
    (∃ e s', restOfCheck name rclass (k + 1) zone env s = .err (.error e, s')) ↔
      DsFound env s.shared.cache s.tick name rclass (k + 2) (k + 2) ∨
        ∃ n, 2 ≤ n ∧ n ≤ k + 1 ∧ DsFound env s.shared.cache s.tick name rclass (k + 2) n := by
  have hkey : dsKey name rclass (k + 2) = none := dsKey_of_err hzone herror
  have hrest : restOfCheck name rclass (k + 1) zone env s =
      checkMissingSignature name rclass (k + 1) env s := by
    unfold restOfCheck
    rw [Run.bind_of_ok (resolveDnssec_of_err herror 43 s)]
    rfl
  have hno : ¬ DsFound env s.shared.cache s.tick name rclass (k + 2) (k + 2) := by
    rintro ⟨key, hsome, _⟩
    rw [hkey] at hsome
    cases hsome
  rw [hrest, ih s, or_iff_right hno]
  refine exists_congr fun n => and_congr_right fun _ => and_congr_right fun hle => ?_
  rw [DsFound, DsFound, lookupsBetween_succ hle, hkey]
  rfl

/-- A suffix that is looked up is found alive, or the walk goes on. -/
theorem restOfCheck_lookup (hclock : Monotone env.clock) {k : Nat} {zone encoded : Bytes}
    (hzone : namePrefix name (k + 2) = .ok zone)
    (hencoded : encodeDomainName (labelsToString zone) = .ok encoded) (s : St)
    (ih : ∀ s : St, (∃ e s', checkMissingSignature name rclass (k + 1) env s = .err (.error e, s')) ↔
      ∃ n, 2 ≤ n ∧ n ≤ k + 1 ∧ DsFound env s.shared.cache s.tick name rclass (k + 1) n) :
    (∃ e s', restOfCheck name rclass (k + 1) zone env s = .err (.error e, s')) ↔
      DsFound env s.shared.cache s.tick name rclass (k + 2) (k + 2) ∨
        ∃ n, 2 ≤ n ∧ n ≤ k + 1 ∧ DsFound env s.shared.cache s.tick name rclass (k + 2) n := by
  have hkey : dsKey name rclass (k + 2) = some (encoded, 43, rclass) :=
    dsKey_of_ok hzone hencoded
  have hself : DsFound env s.shared.cache s.tick name rclass (k + 2) (k + 2) ↔
      s.shared.cache.LiveAt (env.clock s.tick) (encoded, 43, rclass) := by
    simp [DsFound, hkey, lookupsBetween]
  unfold restOfCheck
  rw [Run.bind_of_ok (resolveDnssec_of_ok hencoded 43 s), hself]
  by_cases hlive : s.shared.cache.LiveAt (env.clock s.tick) (encoded, 43, rclass)
  · have hserved := DnsCache.served_ne_nil_iff.mpr hlive
    rw [if_pos (by simpa using hserved)]
    exact ⟨fun _ => .inl hlive, fun _ => ⟨_, _, rfl⟩⟩
  · have hserved : s.shared.cache.served (env.clock s.tick) (encoded, 43, rclass) = [] :=
      not_not.mp fun hne => hlive (DnsCache.served_ne_nil_iff.mp hne)
    rw [hserved, if_neg (by simp), ih, or_iff_right hlive]
    refine exists_congr fun n => and_congr_right fun _ => and_congr_right fun hle => ?_
    rw [DsFound, DsFound, lookupsBetween_succ hle, hkey]
    refine exists_congr fun key => and_congr_right fun _ => ?_
    have hlater : s.tick + 1 + lookupsBetween name rclass n (k + 1) =
        s.tick + (lookupsBetween name rclass n (k + 1) + 1) := by omega
    change (s.shared.cache.lookup (env.clock s.tick) (encoded, 43, rclass)).2.LiveAt
      (env.clock (s.tick + 1 + lookupsBetween name rclass n (k + 1))) key ↔ _
    rw [hlater]
    exact DnsCache.liveAt_lookup (hclock (Nat.le_add_right _ _))

/-- When one suffix of a name cannot be cut off, none can. -/
theorem dsKey_of_panic {m n : Nat} (hpanic : namePrefix name m = .panic) (hn : 0 < n)
    (hlt : n < countLabels name) : dsKey name rclass n = none := by
  rcases namePrefix_ends name n with ⟨zone, hzone⟩ | hpanic'
  · obtain ⟨zone', hzone'⟩ := namePrefix_ok hn hzone hlt m
    rw [hzone'] at hpanic
    cases hpanic
  · simp [dsKey, hpanic', Outcome.toOption]

/-- **The check fails exactly when it finds DS records.** -/
theorem checkMissingSignature_err_iff (hclock : Monotone env.clock) {k : Nat}
    (hk : k < countLabels name) (s : St) :
    (∃ e s', checkMissingSignature name rclass k env s = .err (.error e, s')) ↔
      ∃ n, 2 ≤ n ∧ n ≤ k ∧ DsFound env s.shared.cache s.tick name rclass k n := by
  induction k generalizing s with
  | zero =>
      refine ⟨?_, ?_⟩
      · rintro ⟨_, _, ⟨⟩⟩
      · rintro ⟨n, htwo, hle, _⟩
        omega
  | succ k ih =>
      cases k with
      | zero =>
          refine ⟨?_, ?_⟩
          · rintro ⟨_, _, ⟨⟩⟩
          · rintro ⟨n, htwo, hle, _⟩
            omega
      | succ k =>
          specialize ih (by omega)
          rw [dsFound_succ_iff]
          change (∃ e s', (call (namePrefix name (k + 2)) >>= restOfCheck name rclass (k + 1)) env s =
            .err (.error e, s')) ↔ _
          rcases namePrefix_ends name (k + 2) with ⟨zone, hzone⟩ | hpanic
          · have hcall : (call (namePrefix name (k + 2)) >>= restOfCheck name rclass (k + 1)) env s =
                restOfCheck name rclass (k + 1) zone env s := by
              rw [hzone]
              rfl
            rw [hcall]
            rcases encodeDomainName_ends (labelsToString zone) with
              ⟨encoded, hencoded⟩ | ⟨e, herror⟩
            · exact restOfCheck_lookup hclock hzone hencoded s ih
            · exact restOfCheck_skip hzone herror s ih
          · -- The last label is cut short, so there is no suffix at all.
            rw [hpanic]
            constructor
            · rintro ⟨_, _, ⟨⟩⟩
            · rintro (⟨key, hkey, _⟩ | ⟨n, htwo, hle, key, hkey, _⟩)
              · rw [dsKey_of_panic hpanic (by omega) (by omega)] at hkey
                cases hkey
              · rw [dsKey_of_panic hpanic (by omega) (by omega)] at hkey
                cases hkey

end Check

/-! ### An unsigned answer -/

/-- The signatures and keys the resolver obtains for a direct answer. For a
question about signatures, keys or DS records these are the ones in the reply. -/
def obtainedMaterial (self : Recursive) (cfg : Config) (name : Bytes) (rtype rclass : UInt16)
    (nameservers : List IpAddr) (msg : Message) :
    Resolve (List ResourceRecord × List ResourceRecord) :=
  if validates cfg rtype then answerMaterial self cfg name rtype rclass nameservers msg
  else pure (ofType 46 (msg.answers ++ msg.authorities), ofType 48 (msg.answers ++ msg.authorities))

/-- The rest of `resolve_recursive` once a reply has been cached. -/
def afterReply (self : Recursive) (cfg : Config) (name : Bytes) (rtype rclass : UInt16)
    (depth rounds : Nat) (search : Search) (minimizedName : Bytes) (msg : Message) :
    Resolve Resolution := do
  match ← handleReply self cfg name rtype rclass depth (countLabels name) search minimizedName msg with
  | .inl search => iterate self cfg name rtype rclass depth (countLabels name) rounds search
  | .inr result => pure result

/-- The cache has a live DS RRset of a zone. -/
def HoldsDs (c : DnsCache) (now : Nat) (zone : Bytes) (rclass : UInt16) : Prop :=
  ∃ owner, domainNamesEqual owner zone = true ∧ c.LiveAt now (owner, 43, rclass)

/-- The cache has a live DS RRset of the name or of an ancestor with at least two
labels. -/
def HoldsDsAbove (c : DnsCache) (now : Nat) (name : Bytes) (rclass : UInt16) : Prop :=
  ∃ n zone, 2 ≤ n ∧ n ≤ countLabels name ∧ namePrefix name n = .ok zone ∧
    HoldsDs c now zone rclass

section Unsigned

variable {self : Recursive} {cfg : Config} {name minimizedName : Bytes} {rtype rclass : UInt16}
  {depth rounds : Nat} {search : Search} {msg : Message} {env : Env} {s s₁ : St}

/-- A round of the loop that gets a reply goes on as `afterReply` does. -/
theorem iterate_of_reply {query : Bytes} {id : UInt16} {s₂ : St}
    (hservers : search.nameservers ≠ [])
    (hname : minimizeName name (countLabels name) search = .ok minimizedName)
    (hid : randomId env s = .ok (id, s₁))
    (hquery : buildQueryStatic minimizedName rtype rclass id cfg.dnssecOk false = .ok query)
    (hreply : queryServersConcurrent query search.nameservers env s₁ = .ok (some msg, s₂)) :
    iterate self cfg name rtype rclass depth (countLabels name) (rounds + 1) search env s =
      (cacheResponse cfg search.zone msg >>= fun _ =>
        afterReply self cfg name rtype rclass depth rounds search minimizedName msg) env s₂ := by
  have hiteration : iteration self cfg name rtype rclass depth (countLabels name) search env s =
      (cacheResponse cfg search.zone msg >>= fun _ => handleReply self cfg name rtype rclass depth
        (countLabels name) search minimizedName msg) env s₂ := by
    unfold iteration
    rw [if_neg (by simpa using hservers), hname]
    have hcall : (call (.ok minimizedName) : Resolve Bytes) env s = .ok (minimizedName, s) := rfl
    rw [Run.bind_of_ok hcall, Run.bind_of_ok hid, hquery]
    have hcall : (call (.ok query) : Resolve Bytes) env s₁ = .ok (query, s₁) := rfl
    rw [Run.bind_of_ok hcall, Run.bind_of_ok hreply]
  rw [iterate, Run.bind_apply, hiteration]
  rfl

/-- A direct answer ends the search, with its result or with an error. -/
theorem afterReply_of_direct (hrcode : msg.header.rcode = 0)
    (hanswer : directRecords name rtype msg ≠ []) :
    afterReply self cfg name rtype rclass depth rounds search minimizedName msg env s =
      directAnswer self cfg name rtype rclass (countLabels name) search msg
        (directRecords name rtype msg) env s := by
  unfold afterReply handleReply classifyReply
  rw [if_neg (by rw [hrcode]; decide), if_neg (not_not.mpr hrcode), if_pos (by simpa using hanswer),
    Run.bind_apply, Run.bind_apply]
  cases directAnswer self cfg name rtype rclass (countLabels name) search msg
    (directRecords name rtype msg) env s <;> rfl

/-- Without signatures and keys the verdict is `Indeterminate`, and all that can
fail is the check. -/
theorem directAnswer_of_nothing (hon : validates cfg rtype = true) {totalLabels : Nat}
    (htwo : 2 ≤ totalLabels) (direct : List ResourceRecord)
    (hnothing : answerMaterial self cfg name rtype rclass search.nameservers msg env s =
      .ok (([], []), s₁)) :
    directAnswer self cfg name rtype rclass totalLabels search msg direct env s =
      (checkMissingSignature name rclass (totalLabels - 1) >>= fun _ =>
        cacheDelegation search.zone name msg name search.nameservers >>= fun _ =>
          pure (.direct direct search.adBit (some ⟨[], [], env.wall s₁.tick, none⟩)))
        env { s₁ with tick := s₁.tick + 1 } := by
  have hverdict : validateDnssec env.crypto (env.wall s₁.tick) cfg.dnssecOk direct [] [] =
      .indeterminate := by
    unfold validateDnssec
    split <;> rfl
  have happly : applyVerdict name rclass totalLabels search.adBit [] [] .indeterminate =
      (checkMissingSignature name rclass (totalLabels - 1) >>= fun _ => pure search.adBit) := by
    unfold applyVerdict
    exact (if_neg (by simp)).trans (if_pos (by simpa using htwo))
  unfold directAnswer
  rw [if_pos (by simpa [validates] using hon), Run.bind_of_ok hnothing]
  have hwall : readWall env s₁ = .ok (env.wall s₁.tick, { s₁ with tick := s₁.tick + 1 }) := rfl
  dsimp only
  rw [Run.bind_of_ok Run.read_apply, Run.bind_of_ok hwall, hverdict, happly, Run.bind_apply,
    Run.bind_apply, Run.bind_apply]
  cases checkMissingSignature name rclass (totalLabels - 1) env { s₁ with tick := s₁.tick + 1 } <;>
    rfl

/-- A question about signatures or keys that is answered obtains them. -/
theorem rtype_eq_of_nothing (hok : cfg.dnssecOk = true) (hoff : validates cfg rtype = false)
    (hanswer : directRecords name rtype msg ≠ [])
    (hnothing : obtainedMaterial self cfg name rtype rclass search.nameservers msg env s =
      .ok (([], []), s₁)) : rtype = 43 ∧ s₁ = s := by
  have hmeta : isDnssecMeta rtype = true := by simpa [validates, hok] using hoff
  unfold obtainedMaterial at hnothing
  rw [if_neg (by simp [hoff])] at hnothing
  have hpair := Outcome.ok.inj hnothing
  obtain ⟨hlists, hstate⟩ := Prod.mk.inj hpair
  obtain ⟨hrrsigs, hdnskeys⟩ := Prod.mk.inj hlists
  refine ⟨?_, hstate.symm⟩
  obtain ⟨r, hr⟩ := List.exists_mem_of_ne_nil _ hanswer
  have htype := (mem_directRecords hr).1
  have hmem : r ∈ msg.answers ++ msg.authorities :=
    List.mem_append_left _ (List.mem_of_mem_filter hr)
  have hnot : ∀ t, ofType t (msg.answers ++ msg.authorities) = [] → rtype ≠ t := by
    rintro t hnil rfl
    have : r ∈ ofType rtype (msg.answers ++ msg.authorities) :=
      List.mem_filter.mpr ⟨hmem, decide_eq_true htype⟩
    rw [hnil] at this
    cases this
  simpa [isDnssecMeta, hnot 46 hrrsigs, hnot 48 hdnskeys] using hmeta

/-- **An unsigned answer is rejected exactly when it answers no DS question and
the check finds DS records of a suffix with fewer labels than the name.** -/
theorem unsignedAnswer_err_iff (hclock : Monotone env.clock) (hok : cfg.dnssecOk = true)
    (hrcode : msg.header.rcode = 0) (hanswer : directRecords name rtype msg ≠ [])
    (htwo : 2 ≤ countLabels name)
    (hnothing : obtainedMaterial self cfg name rtype rclass search.nameservers msg env s =
      .ok (([], []), s₁)) :
    (∃ e s', afterReply self cfg name rtype rclass depth rounds search minimizedName msg env s =
      .err (.error e, s')) ↔
      rtype ≠ 43 ∧ ∃ n, 2 ≤ n ∧ n ≤ countLabels name - 1 ∧
        DsFound env s₁.shared.cache (s₁.tick + 1) name rclass (countLabels name - 1) n := by
  rw [afterReply_of_direct hrcode hanswer]
  cases hon : validates cfg rtype with
  | false =>
      obtain ⟨rfl, rfl⟩ := rtype_eq_of_nothing hok hon hanswer hnothing
      have hrun : directAnswer self cfg name 43 rclass (countLabels name) search msg
          (directRecords name 43 msg) env s₁ =
          (cacheDelegation search.zone name msg name search.nameservers >>= fun _ =>
            pure (.direct (directRecords name 43 msg) search.adBit none)) env s₁ := by
        unfold directAnswer
        rw [if_neg (by simpa [validates] using hon)]
      rw [hrun]
      constructor
      · rintro ⟨_, _, ⟨⟩⟩
      · rintro ⟨hne, _⟩
        exact absurd rfl hne
  | true =>
      rw [obtainedMaterial, if_pos hon] at hnothing
      have hne : rtype ≠ 43 := by
        rintro rfl
        simp [validates, isDnssecMeta] at hon
      rw [directAnswer_of_nothing hon htwo _ hnothing, Run.bind_apply, and_iff_right hne,
        ← checkMissingSignature_err_iff hclock (by omega) { s₁ with tick := s₁.tick + 1 }]
      cases checkMissingSignature name rclass (countLabels name - 1) env
          { s₁ with tick := s₁.tick + 1 } with
      | ok x =>
          constructor
          · rintro ⟨_, _, ⟨⟩⟩
          · rintro ⟨_, _, ⟨⟩⟩
      | err x => simp only [Outcome.err_bind, Outcome.err.injEq]
      | panic =>
          constructor
          · rintro ⟨_, _, ⟨⟩⟩
          · rintro ⟨_, _, ⟨⟩⟩
      | diverge =>
          constructor
          · rintro ⟨_, _, ⟨⟩⟩
          · rintro ⟨_, _, ⟨⟩⟩

/-- **A round of the loop that gets an unsigned answer ends the search in an error
exactly then**: the query, the caching of the reply and the check, in this order. -/
theorem unsignedRound_err_iff {query : Bytes} {id : UInt16} {s₂ s₃ s₄ : St}
    (hservers : search.nameservers ≠ [])
    (hname : minimizeName name (countLabels name) search = .ok minimizedName)
    (hid : randomId env s = .ok (id, s₁))
    (hquery : buildQueryStatic minimizedName rtype rclass id cfg.dnssecOk false = .ok query)
    (hreply : queryServersConcurrent query search.nameservers env s₁ = .ok (some msg, s₂))
    (hcached : cacheResponse cfg search.zone msg env s₂ = .ok ((), s₃))
    (hclock : Monotone env.clock) (hok : cfg.dnssecOk = true)
    (hrcode : msg.header.rcode = 0) (hanswer : directRecords name rtype msg ≠ [])
    (htwo : 2 ≤ countLabels name)
    (hnothing : obtainedMaterial self cfg name rtype rclass search.nameservers msg env s₃ =
      .ok (([], []), s₄)) :
    (∃ e s', iterate self cfg name rtype rclass depth (countLabels name) (rounds + 1) search env s =
      .err (.error e, s')) ↔
      rtype ≠ 43 ∧ ∃ n, 2 ≤ n ∧ n ≤ countLabels name - 1 ∧
        DsFound env s₄.shared.cache (s₄.tick + 1) name rclass (countLabels name - 1) n := by
  rw [iterate_of_reply hservers hname hid hquery hreply, Run.bind_of_ok hcached]
  exact unsignedAnswer_err_iff hclock hok hrcode hanswer htwo hnothing

end Unsigned

/-- **Stripped signatures are noticed exactly when the check finds DS records.**
For every reply that answers the name and for which neither a signature nor a
key is obtained: that live DS records of the name or of an ancestor lead to an
error is the same as that they are, while no DS question is asked, also found
for an ancestor with fewer labels than the name. -/
theorem unsignedAnswer_rejected_iff (self : Recursive) (cfg : Config) (name : Bytes)
    (rtype rclass : UInt16) (depth rounds : Nat) (search : Search) (minimizedName : Bytes)
    (msg : Message) (env : Env) (s s₁ : St) (hclock : Monotone env.clock)
    (hok : cfg.dnssecOk = true) (hrcode : msg.header.rcode = 0)
    (hanswer : directRecords name rtype msg ≠ []) (htwo : 2 ≤ countLabels name)
    (hnothing : obtainedMaterial self cfg name rtype rclass search.nameservers msg env s =
      .ok (([], []), s₁)) :
    (HoldsDsAbove s₁.shared.cache (env.clock (s₁.tick + 1)) name rclass →
      ∃ e s', afterReply self cfg name rtype rclass depth rounds search minimizedName msg env s =
        .err (.error e, s')) ↔
    (HoldsDsAbove s₁.shared.cache (env.clock (s₁.tick + 1)) name rclass →
      rtype ≠ 43 ∧ ∃ n, 2 ≤ n ∧ n ≤ countLabels name - 1 ∧
        DsFound env s₁.shared.cache (s₁.tick + 1) name rclass (countLabels name - 1) n) := by
  rw [unsignedAnswer_err_iff hclock hok hrcode hanswer htwo hnothing]

/-- The RDATA of a DS record. -/
def sampleDsRdata : Bytes := [0x4f, 0x66, 8, 2] ++ List.replicate 32 0

/-- A resolver that has the DS records of `a.test` in its cache. -/
def dsState : St :=
  { St.initial 10 with
    shared := { Shared.new 10 with
      cache := (DnsCache.withMaxEntries 10).insert 0 (sampleAnswer.name, 43, 1) 60 sampleDsRdata 36 } }

/-- The DS records of `a.test` are there for `a.test` and for every name below. -/
theorem dsState_holds :
    dsState.shared.cache.LiveAt 0 (sampleAnswer.name, 43, 1) :=
  ⟨[DnsCache.newEntry 0 (sampleAnswer.name, 43, 1) 60 sampleDsRdata 36], by decide +kernel, _,
    List.mem_singleton_self _, by decide⟩

/-- An A record of `b.a.test`, below the signed zone. -/
def lowerAnswer : ResourceRecord := { sampleAnswer with name := [1, 0x62] ++ sampleAnswer.name }

/-- Nobody answers. -/
def silentEnv : Env := .answering Crypto.rejectAll fun _ _ => none

/-- The search at the servers of `a.test`. -/
def lowerSearch : Search := ⟨[.v4 ⟨192, 0, 2, 53⟩], sampleAnswer.name, 3, false⟩

/-- An unsigned answer for `b.a.test` is rejected, for the DS records of `a.test`. -/
theorem unsigned_lowerAnswer_rejected :
    ∃ e s', afterReply (resolveRecursive 0) ⟨false, true⟩ lowerAnswer.name 1 1 0 31 lowerSearch
      lowerAnswer.name (replyWith 0 [lowerAnswer] [] []) silentEnv dsState =
        .err (.error e, s') := by
  have hnothing : obtainedMaterial (resolveRecursive 0) ⟨false, true⟩ lowerAnswer.name 1 1
      lowerSearch.nameservers (replyWith 0 [lowerAnswer] [] []) silentEnv dsState =
        .ok (([], []), { dsState with tick := 2 }) := rfl
  have hzone : namePrefix lowerAnswer.name 2 = .ok sampleAnswer.name := by decide +kernel
  have hkey : dsKey lowerAnswer.name 1 2 = some (sampleAnswer.name, 43, 1) := by decide +kernel
  have hlabels : countLabels lowerAnswer.name = 3 := by decide +kernel
  refine (unsignedAnswer_rejected_iff _ _ _ _ _ _ _ _ _ _ _ _ _ monotone_const rfl rfl
    (by decide +kernel) (by rw [hlabels]; decide) hnothing).mpr ?_ ?_
  · intro _
    exact ⟨by decide, 2, Nat.le_refl _, by rw [hlabels], _, hkey, dsState_holds⟩
  · exact ⟨2, _, Nat.le_refl _, by rw [hlabels]; decide, hzone, _, by decide +kernel, dsState_holds⟩

/-- Every query is answered with the address of `a.test` and without signatures. -/
def strippedEnv : Env := .answering Crypto.rejectAll fun _ _ =>
  some (replyWith 0 [sampleAnswer] [] [])

/-- **An unsigned answer for the apex of a signed zone is accepted**, although the
DS records of the zone are in the cache. -/
theorem unsigned_apex_accepted :
    HoldsDsAbove dsState.shared.cache 0 sampleAnswer.name 1 ∧
      (resolveRecursive 1 ⟨false, true⟩ sampleAnswer.name 1 1 0 true).result strippedEnv dsState =
        .ok (.direct [sampleAnswer] false (some ⟨[], [], 0, none⟩)) := by
  refine ⟨⟨2, sampleAnswer.name, Nat.le_refl _, by decide +kernel, by decide +kernel,
    sampleAnswer.name, by decide +kernel, dsState_holds⟩, ?_⟩
  decide +kernel

end FastDns.Resolver
