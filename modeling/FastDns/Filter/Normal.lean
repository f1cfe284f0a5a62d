/-
Normal forms of names (`normalise_domain` in `src/blocklist.rs`).

`bare` is `normalise_domain` without the lower-casing: blanks at both ends, then
dots at the end, then one wildcard in front. Lower-casing does not move any of
these, so the normal form is a lower case of the bare name (`lowers_normalise`),
and it is normal itself exactly if the bare name is (`normaliseDomain_eq_self_iff`).
One round is not always enough: the order of the steps uncovers blanks behind a dot
and a wildcard behind a wildcard (`Settled`).
-/

import FastDns.Filter.LetterCase
import FastDns.Filter.Precedence

namespace FastDns.Filter

/-! ### Names without lower-casing -/

/-- `trim_end_matches('.')` -/
def undot (s : Text) : Text := s.rdropWhile fun c => c = '.'

/-- One wildcard prefix is removed. -/
def unwild (s : Text) : Text :=
  match stripPrefix s ['*', '.'] with
  | some rest => rest
  | none => if s = ['*'] then [] else s

/-- `normalise_domain` without the lower-casing. -/
def bare (s : Text) : Text := unwild (undot (trim s))

theorem normaliseDomain_eq (lower : Text → Text) (s : Text) :
    normaliseDomain lower s = unwild (undot (lower (trim s))) := rfl

/-- A name that has no blank at an end, no dot at its end and no wildcard. -/
structure Bare (s : Text) : Prop where
  trimmed : Trimmed s
  noDot : ∀ c ∈ s.getLast?, c ≠ '.'
  noWild : ∀ rest, s ≠ '*' :: '.' :: rest
  noStar : s ≠ ['*']

section Bare

variable {s rest : Text}

theorem unwild_wild (rest : Text) : unwild ('*' :: '.' :: rest) = rest := rfl

theorem unwild_of_not_wild (hwild : ∀ rest, s ≠ '*' :: '.' :: rest) (hstar : s ≠ ['*']) :
    unwild s = s := by
  have hnone : stripPrefix s ['*', '.'] = none := by
    refine if_neg fun hpre => ?_
    obtain ⟨rest, hrest⟩ := List.isPrefixOf_iff_prefix.mp hpre
    exact hwild rest hrest.symm
  unfold unwild
  rw [hnone]
  exact if_neg hstar

/-- The three kinds of names before the wildcard is removed. -/
theorem wild_cases (s : Text) :
    (∃ rest, s = '*' :: '.' :: rest ∧ unwild s = rest) ∨ (s = ['*'] ∧ unwild s = []) ∨
      ((∀ rest, s ≠ '*' :: '.' :: rest) ∧ s ≠ ['*'] ∧ unwild s = s) := by
  by_cases hwild : ∃ rest, s = '*' :: '.' :: rest
  · obtain ⟨rest, rfl⟩ := hwild
    exact .inl ⟨rest, rfl, rfl⟩
  · have hno : ∀ rest, s ≠ '*' :: '.' :: rest := fun rest h => hwild ⟨rest, h⟩
    by_cases hstar : s = ['*']
    · exact .inr (.inl ⟨hstar, by rw [hstar]; rfl⟩)
    · exact .inr (.inr ⟨hno, hstar, unwild_of_not_wild hno hstar⟩)

theorem length_unwild_le (s : Text) : (unwild s).length ≤ s.length := by
  rcases wild_cases s with ⟨rest, rfl, heq⟩ | ⟨_, heq⟩ | ⟨_, _, heq⟩ <;> rw [heq]
  · exact Nat.le_add_right _ 2
  · exact Nat.zero_le _

theorem length_undot_le (s : Text) : (undot s).length ≤ s.length :=
  (List.rdropWhile_prefix _ _).length_le

theorem Bare.bare_eq (h : Bare s) : bare s = s := by
  have hundot : undot s = s := by
    rw [undot, rdropWhile_eq_self_iff_getLast?]
    exact fun c hc => decide_eq_false (h.noDot c hc)
  rw [bare, h.trimmed.trim_eq, hundot, unwild_of_not_wild h.noWild h.noStar]

/-- Each step that changes a name makes it shorter. -/
theorem bare_eq_self_iff : bare s = s ↔ Bare s := by
  refine ⟨fun h => ?_, Bare.bare_eq⟩
  have hlength := congrArg List.length h
  have htrim := length_trim_le s
  have hundot := length_undot_le (trim s)
  have hunwild := length_unwild_le (undot (trim s))
  rw [bare] at hlength
  have hwhole : s.length ≤ (trim s).length := by omega
  have htrimmed : trim s = s := (trim_sublist s).eq_of_length_le hwhole
  rw [bare, htrimmed] at h
  rw [htrimmed] at hundot hunwild hlength
  have hwhole' : s.length ≤ (undot s).length := by omega
  have hdots : undot s = s := (List.rdropWhile_prefix _ _).sublist.eq_of_length_le hwhole'
  rw [hdots] at h
  refine ⟨trim_eq_self_iff.mp htrimmed, ?_, ?_, ?_⟩
  · rw [undot, rdropWhile_eq_self_iff_getLast?] at hdots
    exact fun c hc => of_decide_eq_false (hdots c hc)
  · rintro rest rfl
    have hshort := congrArg List.length h
    rw [unwild_wild, List.length_cons, List.length_cons] at hshort
    omega
  · rintro rfl
    cases h

end Bare

/-! ### Names that are normal after one round -/

/-- The name has no blank before the dots at its end, and none, and no second
wildcard, behind its wildcard. -/
structure Settled (s : Text) : Prop where
  last : ∀ c ∈ (undot (trim s)).getLast?, isWhitespace c = false
  wild : ∀ rest, undot (trim s) = '*' :: '.' :: rest →
    (∀ c ∈ rest.head?, isWhitespace c = false) ∧ (∀ more, rest ≠ '*' :: '.' :: more) ∧ rest ≠ ['*']

section Settled

variable {s rest : Text}

theorem getLast?_undot (s : Text) : ∀ c ∈ (undot s).getLast?, c ≠ '.' :=
  fun c hc => of_decide_eq_false (getLast?_rdropWhile_neg s c hc)

/-- What is left behind a wildcard is not empty: it would end with a dot. -/
theorem ne_nil_of_undot_eq_wild (h : undot s = '*' :: '.' :: rest) : rest ≠ [] := by
  rintro rfl
  have hdot := getLast?_undot s
  rw [h] at hdot
  exact hdot '.' rfl rfl

theorem head?_undot_trim (s : Text) : ∀ c ∈ (undot (trim s)).head?, isWhitespace c = false :=
  fun c hc => (trimmed_trim s).head c (head?_of_isPrefix (List.rdropWhile_prefix _ _) c hc)

/-- **One round is enough** exactly for the settled names. -/
theorem bare_bare_iff : Bare (bare s) ↔ Settled s := by
  rcases wild_cases (undot (trim s)) with ⟨rest, hwild, heq⟩ | ⟨hstar, heq⟩ | ⟨hwild, hstar, heq⟩
  · have hne := ne_nil_of_undot_eq_wild hwild
    have hlast : rest.getLast? = (undot (trim s)).getLast? := by
      rw [hwild]
      exact (List.getLast?_append_of_ne_nil ['*', '.'] hne).symm
    rw [bare, heq]
    constructor
    · intro h
      refine ⟨hlast ▸ h.trimmed.last, fun rest' hrest' => ?_⟩
      rw [hwild] at hrest'
      cases hrest'
      exact ⟨h.trimmed.head, h.noWild, h.noStar⟩
    · intro h
      obtain ⟨hhead, hnoWild, hnoStar⟩ := h.wild rest hwild
      exact ⟨⟨hhead, hlast ▸ h.last⟩, hlast ▸ getLast?_undot _, hnoWild, hnoStar⟩
  · rw [bare, heq]
    refine iff_of_true ⟨⟨nofun, nofun⟩, nofun, nofun, nofun⟩ ⟨?_, ?_⟩
    · rw [hstar]
      rintro c hc
      rw [← Option.mem_some.mp hc]
      decide
    · rw [hstar]
      exact nofun
  · rw [bare, heq]
    constructor
    · exact fun h => ⟨h.trimmed.last, fun rest hrest => absurd hrest (hwild rest)⟩
    · exact fun h => ⟨⟨head?_undot_trim s, h.last⟩, getLast?_undot _, hwild, hstar⟩

end Settled

/-! ### Lower-casing -/

namespace CaseTable

section Lowering

variable {u : CaseTable} {s s' : Text}

theorem fixed_dot : Fixed '.' := .inr (by decide)

theorem fixed_star : Fixed '*' := .inr (by decide)

theorem Lowers.undot (h : u.Lowers s s') : u.Lowers (undot s) (undot s') := by
  induction s using List.reverseRecOn generalizing s' with
  | nil =>
      cases h
      exact .nil
  | append_singleton s c ih =>
      obtain ⟨a', t, rfl, ha, ht⟩ := h.append_inv
      have hform := ht.singleton_inv
      by_cases hdot : c = '.'
      · have hsingle := hform.eq_of_fixed (hdot ▸ fixed_dot)
        rw [hsingle, Filter.undot, Filter.undot,
          List.rdropWhile_concat_pos _ _ _ (by simpa using hdot),
          List.rdropWhile_concat_pos _ _ _ (by simpa using hdot)]
        exact ih ha
      · have hkeep : (a' ++ t).rdropWhile (fun c => decide (c = '.')) = a' ++ t := by
          rw [rdropWhile_eq_self_iff_getLast?, List.getLast?_append_of_ne_nil _ hform.ne_nil]
          intro x hx
          refine decide_eq_false ?_
          rintro rfl
          exact hdot ((hform.mem_iff fixed_dot).mp (List.mem_of_mem_getLast? hx))
        rw [Filter.undot, Filter.undot, hkeep,
          List.rdropWhile_concat_neg _ _ _ (by simpa using hdot)]
        exact h

theorem Lowers.wild_iff (h : u.Lowers s s') :
    (∃ rest', s' = '*' :: '.' :: rest') ↔ ∃ rest, s = '*' :: '.' :: rest := by
  constructor
  · rintro ⟨rest', rfl⟩
    obtain ⟨s₁, rfl⟩ := (h.cons_fixed_iff fixed_star).mp ⟨_, rfl⟩
    obtain ⟨s₂, rfl⟩ := ((h.of_cons_fixed fixed_star).cons_fixed_iff fixed_dot).mp ⟨_, rfl⟩
    exact ⟨s₂, rfl⟩
  · rintro ⟨rest, rfl⟩
    obtain ⟨s₁, rfl⟩ := (h.cons_fixed_iff fixed_star).mpr ⟨_, rfl⟩
    obtain ⟨s₂, rfl⟩ := ((h.of_cons_fixed fixed_star).cons_fixed_iff fixed_dot).mpr ⟨_, rfl⟩
    exact ⟨s₂, rfl⟩

theorem Lowers.star_iff (h : u.Lowers s s') : s' = ['*'] ↔ s = ['*'] := by
  constructor
  · rintro rfl
    obtain ⟨s₁, rfl⟩ := (h.cons_fixed_iff fixed_star).mp ⟨_, rfl⟩
    rw [(h.of_cons_fixed fixed_star).nil_iff.mp rfl]
  · rintro rfl
    obtain ⟨s₁, rfl⟩ := (h.cons_fixed_iff fixed_star).mpr ⟨_, rfl⟩
    rw [(h.of_cons_fixed fixed_star).nil_iff.mpr rfl]

theorem Lowers.unwild (h : u.Lowers s s') : u.Lowers (unwild s) (unwild s') := by
  rcases wild_cases s with ⟨rest, rfl, heq⟩ | ⟨hstar, heq⟩ | ⟨hwild, hstar, heq⟩
  · obtain ⟨rest', rfl⟩ := h.wild_iff.mpr ⟨rest, rfl⟩
    exact (h.of_cons_fixed fixed_star).of_cons_fixed fixed_dot
  · rw [heq, h.star_iff.mpr hstar]
    exact .nil
  · have hwild' : ∀ rest, s' ≠ '*' :: '.' :: rest := by
      intro rest hrest
      obtain ⟨rest, hrest⟩ := h.wild_iff.mp ⟨rest, hrest⟩
      exact hwild rest hrest
    rw [heq, unwild_of_not_wild hwild' fun h' => hstar (h.star_iff.mp h')]
    exact h

/-- The normal form is a lower case of the bare name. -/
theorem lowers_normalise (s : Text) :
    u.Lowers (bare s) (normaliseDomain u.toLowercase s) :=
  ((lowers_toLowercase (trim s)).undot).unwild

/-- An end is no blank in one text exactly if it is none in the other, if the blanks
are. -/
theorem noBlank_congr {o o' : Option Char} (h : ∀ x, Fixed x → (x ∈ o' ↔ x ∈ o)) :
    (∀ c ∈ o', isWhitespace c = false) ↔ ∀ c ∈ o, isWhitespace c = false := by
  have hflip : ∀ o : Option Char, (∀ c ∈ o, isWhitespace c = false) ↔
      ∀ c, isWhitespace c = true → c ∉ o := by
    intro o
    refine forall_congr' fun c => ?_
    cases isWhitespace c with
    | false => simp
    | true => simp
  rw [hflip, hflip]
  exact forall_congr' fun c => imp_congr_right fun hblank => not_congr (h c (.inl hblank))

/-- Letter case does not make a name bare. -/
theorem Lowers.bare_iff (h : u.Lowers s s') : Bare s' ↔ Bare s := by
  have hparts : ∀ s : Text, Bare s ↔
      (∀ c ∈ s.head?, isWhitespace c = false) ∧ (∀ c ∈ s.getLast?, isWhitespace c = false) ∧
        '.' ∉ s.getLast? ∧ (¬ ∃ rest, s = '*' :: '.' :: rest) ∧ s ≠ ['*'] := by
    intro s
    constructor
    · rintro ⟨⟨hhead, hlast⟩, hdot, hwild, hstar⟩
      exact ⟨hhead, hlast, fun hmem => hdot '.' hmem rfl, fun ⟨rest, hrest⟩ => hwild rest hrest,
        hstar⟩
    · rintro ⟨hhead, hlast, hdot, hwild, hstar⟩
      exact ⟨⟨hhead, hlast⟩, fun c hc heq => hdot (heq ▸ hc), fun rest hrest => hwild ⟨rest, hrest⟩,
        hstar⟩
  rw [hparts s', hparts s, noBlank_congr fun x => h.head?_iff,
    noBlank_congr fun x => h.getLast?_iff, h.getLast?_iff fixed_dot, h.wild_iff, ne_eq, h.star_iff]

/-- A lower-case name is only made bare. -/
theorem normaliseDomain_of_stable (h : u.Stable s) :
    normaliseDomain u.toLowercase s = bare s := by
  have htrim : u.Stable (trim s) := fun x hx => h x ((trim_sublist s).mem hx)
  rw [normaliseDomain_eq, toLowercase_of_stable htrim]
  rfl

theorem stable_normalise (s : Text) : u.Stable (normaliseDomain u.toLowercase s) :=
  (lowers_normalise s).stable

/-- The normal form is normal exactly if one round is enough. -/
theorem normaliseDomain_eq_self_iff (s : Text) :
    normaliseDomain u.toLowercase (normaliseDomain u.toLowercase s) =
      normaliseDomain u.toLowercase s ↔ Settled s := by
  rw [normaliseDomain_of_stable (stable_normalise s), bare_eq_self_iff,
    (lowers_normalise s).bare_iff, bare_bare_iff]

end Lowering

end CaseTable

end FastDns.Filter
