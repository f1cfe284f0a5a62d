/-
The longest cached delegation of a name.

`find_cached_delegation` walks over the wire form of a name label by label. For a
well-formed name the positions it stops at are the suffixes of the list of
labels, so it finds the longest one that has an entry which has not expired
(`findCachedDelegation_longest`), and it changes what is stored nowhere.
`walkDelegations` is the walk on positions, with checked reads; it returns on
every byte string (`walkDelegations_eq`).
-/

import FastDns.Resolver.Rounds

namespace FastDns.Resolver

open FastDns.Lib FastDns.Dns

/-! ### Matches -/

/-- The zone has an entry with these servers that has not expired. -/
def Shared.Live (c : Shared) (now : Nat) (zone : Bytes) (servers : List IpAddr) : Prop :=
  ∃ expiry, c.delegationCache.get? zone = some (servers, expiry) ∧ now < expiry

/-- Some of the last labels, at least one, have an entry that has not expired, and
no more of them have one. -/
structure LongestMatch (c : Shared) (now : Nat) (labels suffix : List Bytes)
    (servers : List IpAddr) : Prop where
  ending : suffix <:+ labels
  nonempty : suffix ≠ []
  live : c.Live now (wireName suffix) servers
  longest : ∀ longer, longer <:+ labels → suffix.length < longer.length →
    ∀ servers', ¬ c.Live now (wireName longer) servers'

section Match

variable {c : Shared} {now : Nat} {labels suffix : List Bytes} {label : Bytes}
  {servers : List IpAddr}

theorem live_touch {zone other : Bytes} :
    (c.apply (.delegationGet other)).Live now zone servers ↔ c.Live now zone servers := by
  have hget : (c.apply (.delegationGet other)).delegationCache.get? zone =
      c.delegationCache.get? zone := Lru.get?_touch
  rw [Shared.Live, Shared.Live, hget]

/-- There is one longest match at most. -/
theorem LongestMatch.unique {suffix' : List Bytes} {servers' : List IpAddr}
    (h : LongestMatch c now labels suffix servers)
    (h' : LongestMatch c now labels suffix' servers') : suffix' = suffix ∧ servers' = servers := by
  have hlength : suffix'.length = suffix.length := by
    by_contra hne
    rcases Nat.lt_or_gt_of_ne hne with hlt | hgt
    · exact h'.longest suffix h.ending hlt servers h.live
    · exact h.longest suffix' h'.ending hgt servers' h'.live
  have hsame : suffix' = suffix :=
    (List.suffix_of_suffix_length_le h'.ending h.ending (Nat.le_of_eq hlength)).eq_of_length hlength
  obtain ⟨expiry, hget, -⟩ := h.live
  obtain ⟨expiry', hget', -⟩ := h'.live
  rw [hsame, hget] at hget'
  cases hget'
  exact ⟨hsame, rfl⟩

/-- Where the whole name has no entry, the longest match is one of the rest. -/
theorem LongestMatch.cons (h : LongestMatch c now labels suffix servers)
    (hmiss : ∀ servers', ¬ c.Live now (wireName (label :: labels)) servers') :
    LongestMatch c now (label :: labels) suffix servers where
  ending := h.ending.trans (List.suffix_cons label labels)
  nonempty := h.nonempty
  live := h.live
  longest := by
    intro longer hlonger hlength
    rcases List.suffix_cons_iff.mp hlonger with rfl | hrest
    · exact hmiss
    · exact h.longest longer hrest hlength

end Match

/-! ### The loop over suffixes -/

section Loop

variable {c : Shared} {now fuel : Nat} {labels : List Bytes}

/-- One round, at a suffix that is not the root. -/
theorem findDelegationLoop_round (first second : UInt8) (rest : Bytes) :
    (∃ servers, c.Live now (first :: second :: rest) servers ∧
      (findDelegationLoop now (fuel + 1) (first :: second :: rest) c).1 =
        some (servers, first :: second :: rest)) ∨
    (∀ servers, ¬ c.Live now (first :: second :: rest) servers) ∧
      findDelegationLoop now (fuel + 1) (first :: second :: rest) c =
        findDelegationLoop now fuel ((second :: rest).drop first.toNat)
          (c.apply (.delegationGet (first :: second :: rest))) := by
  unfold Shared.Live
  rw [findDelegationLoop]
  cases hget : c.delegationCache.get? (first :: second :: rest) with
  | none =>
      refine .inr ⟨?_, rfl⟩
      rintro servers ⟨expiry, hnone, -⟩
      cases hnone
  | some entry =>
      obtain ⟨servers, expiry⟩ := entry
      by_cases hlive : now < expiry
      · exact .inl ⟨servers, ⟨expiry, rfl, hlive⟩, by simp [hlive]⟩
      · refine .inr ⟨?_, by simp [hlive]⟩
        rintro other ⟨_, hsome, hnow⟩
        cases hsome
        exact hlive hnow

/-- What the walk over the delegation cache finds is stored for a suffix. -/
theorem findDelegationLoop_some {name suffix : Bytes} {servers : List IpAddr}
    (h : (findDelegationLoop now fuel name c).1 = some (servers, suffix)) :
    suffix <:+ name ∧ c.Live now suffix servers := by
  induction fuel generalizing name c with
  | zero => cases h
  | succ fuel ih =>
      cases name with
      | nil => cases h
      | cons first rest =>
          cases rest with
          | nil => cases h
          | cons second rest =>
              rcases findDelegationLoop_round first second rest with
                ⟨found, hlive, hfound⟩ | ⟨_, hgoes⟩
              · rw [hfound] at h
                cases h
                exact ⟨List.suffix_refl _, hlive⟩
              · rw [hgoes] at h
                obtain ⟨hsuffix, hlive⟩ := ih h
                exact ⟨(hsuffix.trans (List.drop_suffix _ _)).trans (List.suffix_cons _ _),
                  live_touch.mp hlive⟩

/-- A label is followed by a byte at least. -/
theorem wireName_cons_eq (label : Bytes) (labels : List Bytes) :
    ∃ second rest, label ++ wireName labels = second :: rest := by
  have hne : label ++ wireName labels ≠ [] := by
    intro hnil
    have hlength := congrArg List.length hnil
    have hrest : labels.length < (wireName labels).length := length_lt_wireName
    rw [List.length_append, List.length_nil] at hlength
    omega
  exact List.exists_cons_of_ne_nil hne

/-- The walk finds the longest match, or there is none. -/
theorem findDelegationLoop_wireName (h : LabelWalk fuel labels) :
    (∃ suffix servers, LongestMatch c now labels suffix servers ∧
      (findDelegationLoop now fuel (wireName labels) c).1 = some (servers, wireName suffix)) ∨
    (∀ suffix, suffix <:+ labels → suffix ≠ [] →
      ∀ servers, ¬ c.Live now (wireName suffix) servers) ∧
      (findDelegationLoop now fuel (wireName labels) c).1 = none := by
  induction h generalizing c with
  | root fuel =>
      refine .inr ⟨fun suffix hsuffix hne => ?_, rfl⟩
      exact absurd (List.suffix_nil.mp hsuffix) hne
  | @label fuel label labels hok _ ih =>
      obtain ⟨second, rest, hbytes⟩ := wireName_cons_eq label labels
      have hname : wireName (label :: labels) = UInt8.ofNat label.length :: second :: rest := by
        rw [wireName, List.cons_append, hbytes]
      have hnext : (second :: rest).drop (UInt8.ofNat label.length).toNat = wireName labels := by
        rw [← hbytes, hok.toNat_length, List.drop_left]
      rcases @findDelegationLoop_round c now fuel (UInt8.ofNat label.length) second rest with
        ⟨servers, hlive, hfound⟩ | ⟨hmiss, hgoes⟩
      · rw [← hname] at hlive hfound
        refine .inl ⟨label :: labels, servers, ⟨List.suffix_refl _, by simp, hlive, ?_⟩, hfound⟩
        intro longer hlonger hlength
        exact absurd hlonger.length_le (Nat.not_le.mpr hlength)
      · rw [hnext, ← hname] at hgoes
        rw [← hname] at hmiss
        rw [hgoes]
        rcases ih (c := c.apply (.delegationGet (wireName (label :: labels)))) with
          ⟨suffix, servers, hmatch, hfound⟩ | ⟨hnone, hfound⟩
        · refine .inl ⟨suffix, servers, LongestMatch.cons ?_ hmiss, hfound⟩
          exact ⟨hmatch.ending, hmatch.nonempty, live_touch.mp hmatch.live,
            fun longer hlonger hlength servers' hlive =>
              hmatch.longest longer hlonger hlength servers' (live_touch.mpr hlive)⟩
        · refine .inr ⟨fun suffix hsuffix hne servers hlive => ?_, hfound⟩
          rcases List.suffix_cons_iff.mp hsuffix with rfl | hrest
          · exact hmiss servers hlive
          · exact hnone suffix hrest hne servers (live_touch.mpr hlive)

end Loop

/-! ### The walk on positions -/

/-- The loop of `find_cached_delegation` as it reads the bytes: the slice from
`offset` on, and the length of the label there. -/
def walkDelegations (now : Nat) (name : Bytes) :
    Nat → Nat → Shared → DnsResult (Option (List IpAddr × Bytes) × Shared)
  | 0, _, _ => .diverge
  | fuel + 1, offset, c =>
      if offset < name.length then do
        let suffix ← sliceFrom name offset
        if suffix.length ≤ 1 then pure (none, c)
        else
          let c' := c.apply (.delegationGet suffix)
          match c.delegationCache.get? suffix with
          | some (servers, expiry) =>
              if now < expiry then pure (some (servers, suffix), c')
              else do
                let len ← index name offset
                walkDelegations now name fuel (offset + 1 + len.toNat) c'
          | none => do
              let len ← index name offset
              walkDelegations now name fuel (offset + 1 + len.toNat) c'
      else pure (none, c)

/-- From any position the walk returns what the loop over suffixes finds. -/
theorem walkDelegations_from (now : Nat) (name : Bytes) {fuel fuel' offset : Nat} (c : Shared)
    (hpos : 0 < fuel) (hfuel : name.length < fuel + offset)
    (hfuel' : name.length ≤ fuel' + offset) :
    walkDelegations now name fuel offset c =
      .ok (findDelegationLoop now fuel' (name.drop offset) c) := by
  induction fuel generalizing fuel' offset c with
  | zero => cases hpos
  | succ fuel ih =>
      by_cases hin : offset < name.length
      · obtain ⟨fuel', rfl⟩ := Nat.exists_eq_add_of_le' (show 1 ≤ fuel' by omega)
        have hindex : (index name offset : DnsResult UInt8) = .ok name[offset] := index_of_lt hin
        have hsuffix : name.drop offset = name[offset] :: name.drop (offset + 1) :=
          List.drop_eq_getElem_cons hin
        have hnext : ∀ c', walkDelegations now name fuel (offset + 1 + name[offset].toNat) c' =
            .ok (findDelegationLoop now fuel' ((name.drop (offset + 1)).drop name[offset].toNat)
              c') := by
          intro c'
          rw [List.drop_drop]
          exact ih c' (by omega) (by omega) (by omega)
        rw [walkDelegations, if_pos hin, sliceFrom_of_le (Nat.le_of_lt hin), Outcome.ok_bind,
          hindex, hsuffix, findDelegationLoop]
        have hroot : (name[offset] :: name.drop (offset + 1)).length ≤ 1 ↔
            (name.drop (offset + 1)).isEmpty = true := by
          rw [List.length_cons, List.isEmpty_iff, ← List.length_eq_zero_iff]
          omega
        by_cases hshort : (name.drop (offset + 1)).isEmpty = true
        · rw [if_pos (hroot.mpr hshort), if_pos hshort]
          rfl
        · rw [if_neg (mt hroot.mp hshort), if_neg hshort]
          dsimp only
          cases c.delegationCache.get? (name[offset] :: name.drop (offset + 1)) with
          | none => exact hnext _
          | some entry =>
              obtain ⟨servers, expiry⟩ := entry
              by_cases hlive : now < expiry
              · simp only [hlive, if_true]
                rfl
              · simp only [hlive, if_false]
                exact hnext _
      · rw [walkDelegations, if_neg hin, List.drop_eq_nil_of_le (Nat.le_of_not_lt hin)]
        cases fuel' <;> rfl

/-- The walk ends on every byte string, and reads no byte that is not there. -/
theorem walkDelegations_eq (now : Nat) (name : Bytes) (c : Shared) :
    walkDelegations now name (name.length + 1) 0 c = .ok (findCachedDelegation now name c) :=
  walkDelegations_from now name c (Nat.succ_pos _) (Nat.lt_succ_self _) (Nat.le_refl _)

/-! ### The result -/

/-- **The longest match is found**: for every name, of the suffixes that have at
least one label and an entry that has not expired, the servers of the longest
one; nothing if there is none. The caches hold what they held, and the walk ends
on every byte string. -/
theorem findCachedDelegation_longest (labels : List Bytes) (hok : LabelsOk labels) (now : Nat)
    (c : Shared) :
    (∀ servers zone, (findCachedDelegation now (wireName labels) c).1 = some (servers, zone) ↔
      ∃ suffix, LongestMatch c now labels suffix servers ∧ zone = wireName suffix) ∧
    ((findCachedDelegation now (wireName labels) c).1 = none ↔
      ∀ suffix, suffix <:+ labels → suffix ≠ [] →
        ∀ servers, ¬ c.Live now (wireName suffix) servers) ∧
    ((findCachedDelegation now (wireName labels) c).2.cache = c.cache ∧
      (findCachedDelegation now (wireName labels) c).2.nsCache = c.nsCache ∧
      ∀ zone, (findCachedDelegation now (wireName labels) c).2.delegationCache.get? zone =
        c.delegationCache.get? zone) ∧
    ∀ name : Bytes, walkDelegations now name (name.length + 1) 0 c =
      .ok (findCachedDelegation now name c) := by
  refine ⟨?_, ?_, findDelegationLoop_frame now _ _ c, fun name => walkDelegations_eq now name c⟩
  · intro servers zone
    rw [findCachedDelegation]
    rcases @findDelegationLoop_wireName c now _ _ hok.walk_wireName with
      ⟨suffix, servers', hmatch, hfound⟩ | ⟨hnone, hfound⟩
    · rw [hfound]
      constructor
      · intro hsome
        cases hsome
        exact ⟨suffix, hmatch, rfl⟩
      · rintro ⟨suffix', hmatch', rfl⟩
        obtain ⟨rfl, rfl⟩ := hmatch.unique hmatch'
        rfl
    · rw [hfound]
      constructor
      · intro hsome
        cases hsome
      · rintro ⟨suffix, hmatch, -⟩
        exact absurd hmatch.live (hnone suffix hmatch.ending hmatch.nonempty servers)
  · rw [findCachedDelegation]
    rcases @findDelegationLoop_wireName c now _ _ hok.walk_wireName with
      ⟨suffix, servers, hmatch, hfound⟩ | ⟨hnone, hfound⟩
    · rw [hfound]
      constructor
      · intro hsome
        cases hsome
      · intro hnone
        exact absurd hmatch.live (hnone suffix hmatch.ending hmatch.nonempty servers)
    · exact ⟨fun _ => hnone, fun _ => hfound⟩

/-- `a.test` with an expired entry of its own and a live one of `test`. -/
theorem findCachedDelegation_longest_expired :
    (findCachedDelegation 5 (wireName [[97], [116, 101, 115, 116]])
      (((Shared.new 10).apply (.delegationPut (wireName [[116, 101, 115, 116]]) [] 9)).apply
        (.delegationPut (wireName [[97], [116, 101, 115, 116]]) [] 4))).1 =
      some ([], wireName [[116, 101, 115, 116]]) := by
  refine ((findCachedDelegation_longest [[97], [116, 101, 115, 116]] (by simp [LabelsOk]) 5 _).1 []
    _).mpr ⟨[[116, 101, 115, 116]], ⟨by decide, by simp, ⟨9, by decide +kernel, by decide⟩, ?_⟩, rfl⟩
  intro longer hlonger hlength servers hlive
  have hwhole : longer = [[97], [116, 101, 115, 116]] :=
    hlonger.eq_of_length_le (Nat.succ_le_of_lt hlength)
  obtain ⟨expiry, hget, hnow⟩ := hlive
  have hentry : (((Shared.new 10).apply (.delegationPut (wireName [[116, 101, 115, 116]]) [] 9)).apply
      (.delegationPut (wireName [[97], [116, 101, 115, 116]]) [] 4)).delegationCache.get?
        (wireName [[97], [116, 101, 115, 116]]) = some ([], 4) := Lru.get?_put_self
  rw [hwhole, hentry] at hget
  cases hget
  exact absurd hnow (by decide)

end FastDns.Resolver
