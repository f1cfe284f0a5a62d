/-
`domain_names_equal` (`src/dns/types.rs`) with the two cursors of the source.

`domainNamesEqualFrom` reads each byte at its index, where an index out of range
panics, and has no bound on its rounds other than the fuel. It ends on every pair of
byte strings, without a panic, and says what the model without cursors says
(`domainNamesEqualFrom_eq`). On names in wire form that is equality of the labels up
to letter case (`domainNamesEqual_labels`).
-/

import FastDns.Dns.TextForm

namespace FastDns.Dns

open FastDns.Lib

/-! ### The cursors -/

section Cursors

variable (a b : Bytes)

/-- The inner loop: `n` more bytes under the cursors agree up to ASCII case. The
result is where the cursors stand behind them. -/
def labelBytesEqualFrom : Nat → Nat → Nat → Outcome Empty (Option (Nat × Nat))
  | 0, ia, ib => .ok (some (ia, ib))
  | n + 1, ia, ib =>
      if a.length ≤ ia ∨ b.length ≤ ib then .ok none
      else do
        let x ← Outcome.orPanic a[ia]?
        let y ← Outcome.orPanic b[ib]?
        if eqIgnoreAsciiCase x y then labelBytesEqualFrom n (ia + 1) (ib + 1)
        else .ok none

/-- The outer loop, with the cursors at the lengths of two labels. -/
def domainNamesEqualFrom : Nat → Nat → Nat → Outcome Empty Bool
  | 0, _, _ => .diverge
  | fuel + 1, ia, ib =>
      if a.length ≤ ia ∧ b.length ≤ ib then .ok true
      else if a.length ≤ ia ∨ b.length ≤ ib then .ok false
      else do
        let la ← Outcome.orPanic a[ia]?
        let lb ← Outcome.orPanic b[ib]?
        if la ≠ lb then .ok false
        else if la = 0 then .ok true
        else
          match ← labelBytesEqualFrom a b la.toNat (ia + 1) (ib + 1) with
          | none => .ok false
          | some (ia, ib) => domainNamesEqualFrom fuel ia ib

variable {a b} {fuel n ia ib : Nat}

/-- The inner loop never reads behind an end. -/
theorem labelBytesEqualFrom_eq (n ia ib : Nat) :
    labelBytesEqualFrom a b n ia ib =
      .ok ((labelBytesEqual n (a.drop ia) (b.drop ib)).map fun _ => (ia + n, ib + n)) := by
  induction n generalizing ia ib with
  | zero => rfl
  | succ n ih =>
      unfold labelBytesEqualFrom
      by_cases hends : a.length ≤ ia ∨ b.length ≤ ib
      · rw [if_pos hends]
        rcases hends with hend | hend
        · rw [List.drop_eq_nil_of_le hend]
          rfl
        · rw [List.drop_eq_nil_of_le hend]
          cases a.drop ia <;> rfl
      · obtain ⟨ha, hb⟩ := not_or.mp hends
        have ha' : ia < a.length := Nat.lt_of_not_le ha
        have hb' : ib < b.length := Nat.lt_of_not_le hb
        rw [if_neg hends, List.getElem?_eq_getElem ha', List.getElem?_eq_getElem hb',
          Outcome.orPanic_some, Outcome.ok_bind, Outcome.orPanic_some, Outcome.ok_bind, ih,
          List.drop_eq_getElem_cons ha', List.drop_eq_getElem_cons hb', labelBytesEqual]
        by_cases hsame : eqIgnoreAsciiCase a[ia] b[ib] = true
        · rw [if_pos hsame, if_pos hsame]
          have hia : ia + 1 + n = ia + (n + 1) := by omega
          have hib : ib + 1 + n = ib + (n + 1) := by omega
          rw [hia, hib]
        · rw [if_neg hsame, if_neg hsame]
          rfl

/-- Every round moves the first cursor forward, so the loop ends. -/
theorem domainNamesEqualFrom_drop (hfuel : a.length - ia < fuel) :
    domainNamesEqualFrom a b fuel ia ib =
      .ok (domainNamesEqualLoop fuel (a.drop ia) (b.drop ib)) := by
  induction fuel generalizing ia ib with
  | zero => exact absurd hfuel (Nat.not_lt_zero _)
  | succ fuel ih =>
      unfold domainNamesEqualFrom
      by_cases ha : a.length ≤ ia
      · rw [List.drop_eq_nil_of_le ha]
        by_cases hb : b.length ≤ ib
        · rw [if_pos ⟨ha, hb⟩, List.drop_eq_nil_of_le hb]
          rfl
        · rw [if_neg fun h => hb h.2, if_pos (.inl ha),
            List.drop_eq_getElem_cons (Nat.lt_of_not_le hb)]
          rfl
      have ha' : ia < a.length := Nat.lt_of_not_le ha
      rw [if_neg fun h => ha h.1, List.drop_eq_getElem_cons ha']
      by_cases hb : b.length ≤ ib
      · rw [if_pos (.inr hb), List.drop_eq_nil_of_le hb]
        rfl
      have hb' : ib < b.length := Nat.lt_of_not_le hb
      rw [if_neg (not_or.mpr ⟨ha, hb⟩), List.drop_eq_getElem_cons hb',
        List.getElem?_eq_getElem ha', List.getElem?_eq_getElem hb', Outcome.orPanic_some,
        Outcome.ok_bind, Outcome.orPanic_some, Outcome.ok_bind, domainNamesEqualLoop]
      split
      · rfl
      split
      · rfl
      rw [labelBytesEqualFrom_eq, Outcome.ok_bind]
      cases hlabel : labelBytesEqual a[ia].toNat (a.drop (ia + 1)) (b.drop (ib + 1)) with
      | none => rfl
      | some rest =>
          obtain ⟨_, _, _, hresta, hrestb⟩ := labelBytesEqual_eq_some hlabel
          dsimp only [Option.map_some]
          rw [hresta, hrestb, List.drop_drop, List.drop_drop]
          exact ih (by omega)

/-- A bound above the length of the first name is none. -/
theorem domainNamesEqualLoop_fuel {fuel fuel' : Nat} {a b : Bytes} (h : a.length < fuel)
    (h' : a.length < fuel') :
    domainNamesEqualLoop fuel a b = domainNamesEqualLoop fuel' a b := by
  induction fuel generalizing fuel' a b with
  | zero => exact absurd h (Nat.not_lt_zero _)
  | succ fuel ih =>
      obtain ⟨fuel', rfl⟩ := Nat.exists_eq_succ_of_ne_zero (Nat.ne_zero_of_lt h')
      cases a with
      | nil => cases b <;> rfl
      | cons la a =>
          cases b with
          | nil => rfl
          | cons lb b =>
              rw [domainNamesEqualLoop, domainNamesEqualLoop]
              split
              · rfl
              split
              · rfl
              cases hlabel : labelBytesEqual la.toNat a b with
              | none => rfl
              | some rest =>
                  obtain ⟨_, _, _, hresta, _⟩ := labelBytesEqual_eq_some hlabel
                  have hshort : rest.1.length ≤ a.length := by
                    rw [hresta, List.length_drop]
                    exact Nat.sub_le _ _
                  rw [List.length_cons] at h h'
                  exact ih (by omega) (by omega)

/-- The loop ends on every pair of byte strings, without a panic. -/
theorem domainNamesEqualFrom_eq (hfuel : a.length < fuel) :
    domainNamesEqualFrom a b fuel 0 0 = .ok (domainNamesEqual a b) := by
  have hdrop : domainNamesEqualFrom a b fuel 0 0 =
      .ok (domainNamesEqualLoop fuel (a.drop 0) (b.drop 0)) :=
    domainNamesEqualFrom_drop hfuel
  rw [hdrop, List.drop_zero, List.drop_zero, domainNamesEqual,
    domainNamesEqualLoop_fuel hfuel (Nat.lt_succ_self _)]

end Cursors

/-! ### Names in wire form -/

section Names

variable {as bs : List Bytes}

/-- The labels, one by one. -/
theorem lowerAll_eq_iff :
    lowerAll as = lowerAll bs ↔ as.length = bs.length ∧
      ∀ i : Nat, as[i]?.map (List.map asciiLower) = bs[i]?.map (List.map asciiLower) := by
  constructor
  · intro h
    refine ⟨by simpa [lowerAll] using congrArg List.length h, fun i => ?_⟩
    simpa [lowerAll] using congrArg (fun labels => labels[i]?) h
  · rintro ⟨_, h⟩
    refine List.ext_getElem? fun i => ?_
    simpa [lowerAll] using h i

/-- Equality of names is one. -/
theorem equivalence_domainNamesEqual :
    Equivalence fun a b : {name // WireName name} => domainNamesEqual a.1 b.1 = true where
  refl a := (domainNamesEqual_iff a.2 a.2).mpr rfl
  symm {a b} h := (domainNamesEqual_iff b.2 a.2).mpr ((domainNamesEqual_iff a.2 b.2).mp h).symm
  trans {a b c} hab hbc :=
    (domainNamesEqual_iff a.2 c.2).mpr
      (((domainNamesEqual_iff a.2 b.2).mp hab).trans ((domainNamesEqual_iff b.2 c.2).mp hbc))

/-- Equal names have equal suffixes. -/
theorem domainNamesEqual_namePrefix (ha : LabelsOk as) (hb : LabelsOk bs)
    (h : lowerAll as = lowerAll bs) (n : Nat) :
    ∃ a' b', namePrefix (wireName as) n = .ok a' ∧ namePrefix (wireName bs) n = .ok b' ∧
      domainNamesEqual a' b' = true := by
  have hlength := (lowerAll_eq_iff.mp h).1
  refine ⟨_, _, namePrefix_wireName ha n, namePrefix_wireName hb n, ?_⟩
  rw [domainNamesEqual_wireName (fun l hl => ha l (List.mem_of_mem_drop hl))
    fun l hl => hb l (List.mem_of_mem_drop hl), lowerAll, lowerAll, List.map_drop, List.map_drop,
    hlength]
  exact congrArg (List.drop _) h

/-- **`domain_names_equal` is equality of names**: of their labels, one by one, up to
letter case. Equal names have the same number of labels and equal suffixes, and the
comparison returns on every pair of byte strings. -/
theorem domainNamesEqual_labels (ha : LabelsOk as) (hb : LabelsOk bs) :
    (domainNamesEqual (wireName as) (wireName bs) = true ↔ as.length = bs.length ∧
        ∀ i : Nat, as[i]?.map (List.map asciiLower) = bs[i]?.map (List.map asciiLower)) ∧
      (Equivalence fun a b : {name // WireName name} => domainNamesEqual a.1 b.1 = true) ∧
      (domainNamesEqual (wireName as) (wireName bs) = true →
        countLabels (wireName as) = countLabels (wireName bs) ∧
          ∀ n, ∃ a' b', namePrefix (wireName as) n = .ok a' ∧
            namePrefix (wireName bs) n = .ok b' ∧ domainNamesEqual a' b' = true) ∧
      ∀ (a b : Bytes) (fuel : Nat), a.length < fuel →
        domainNamesEqualFrom a b fuel 0 0 = .ok (domainNamesEqual a b) := by
  have hlower := domainNamesEqual_wireName ha hb
  refine ⟨hlower.trans lowerAll_eq_iff, equivalence_domainNamesEqual, fun h => ?_, ?_⟩
  · refine ⟨?_, domainNamesEqual_namePrefix ha hb (hlower.mp h)⟩
    rw [countLabels_wireName ha, countLabels_wireName hb]
    exact (lowerAll_eq_iff.mp (hlower.mp h)).1
  · exact fun a b fuel hfuel => domainNamesEqualFrom_eq hfuel

theorem domainNamesEqual_com :
    domainNamesEqual (wireName [[67, 79, 77]]) (wireName [[99, 111, 109]]) = true :=
  (@domainNamesEqual_labels [[67, 79, 77]] [[99, 111, 109]]
    (by unfold LabelsOk; decide) (by unfold LabelsOk; decide)).1.mpr
      ⟨rfl, fun i => by rcases i with _ | _ <;> rfl⟩

end Names

end FastDns.Dns
