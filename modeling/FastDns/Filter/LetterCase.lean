/-
`str::to_lowercase` over the Unicode tables.

A `CaseTable` is any version of the tables together with what every version
promises. Lower-casing goes character by character; only the capital sigma looks
at its neighbours (`toLowercaseFrom`). What the parser of the block lists looks for
is no letter, so lower-casing leaves it where it is: `Lowers` is what remains of
`to_lowercase` when the neighbours of a sigma are forgotten, and a digit, a mark or
a blank stands in the lower case exactly where it stands in the text
(`Form.mem_iff`).
-/

import FastDns.Filter.Text

namespace FastDns.Filter

/-! ### Characters -/

theorem toNat_toLower (c : Char) :
    c.toLower.toNat = if 65 ≤ c.toNat ∧ c.toNat ≤ 90 then c.toNat + 32 else c.toNat := by
  have hrange : (c.val ≥ 'A'.val ∧ c.val ≤ 'Z'.val) ↔ 65 ≤ c.toNat ∧ c.toNat ≤ 90 := by
    simp only [ge_iff_le, UInt32.le_iff_toNat_le]
    rfl
  unfold Char.toLower
  by_cases h : 65 ≤ c.toNat ∧ c.toNat ≤ 90
  · rw [dif_pos (hrange.mpr h), if_pos h]
    change (c.val + 32).toNat = c.toNat + 32
    have hsum : (c.val + 32).toNat = (c.val.toNat + 32) % 4294967296 := UInt32.toNat_add _ _
    have hval : c.val.toNat = c.toNat := rfl
    omega
  · rw [dif_neg (hrange.not.mpr h), if_neg h]

theorem isWhitespace_iff (c : Char) :
    isWhitespace c = true ↔ (9 ≤ c.toNat ∧ c.toNat ≤ 13) ∨ c.toNat = 32 ∨ c.toNat = 133 ∨
      c.toNat = 160 ∨ c.toNat = 5760 ∨ (8192 ≤ c.toNat ∧ c.toNat ≤ 8202) ∨ c.toNat = 8232 ∨
      c.toNat = 8233 ∨ c.toNat = 8239 ∨ c.toNat = 8287 ∨ c.toNat = 12288 := by
  have hval : c.val.toNat = c.toNat := rfl
  simp only [isWhitespace, Bool.or_eq_true, Bool.and_eq_true, decide_eq_true_eq,
    UInt32.le_iff_toNat_le, ← UInt32.toNat_inj, hval, or_assoc]
  rfl

/-- No letter: an ASCII character that is none, or whitespace. -/
def Fixed (c : Char) : Prop :=
  isWhitespace c = true ∨
    c.toNat < 128 ∧ ¬ (65 ≤ c.toNat ∧ c.toNat ≤ 90) ∧ ¬ (97 ≤ c.toNat ∧ c.toNat ≤ 122)

/-- Both sigmas are letters beyond ASCII. -/
theorem sigma_beyond : ¬ 'Σ'.toNat < 128 := by decide

theorem finalSigma_beyond : ¬ 'ς'.toNat < 128 := by decide

theorem sigma_not_fixed : ¬ Fixed 'Σ' := by
  rintro (hblank | ⟨hascii, _⟩)
  · exact absurd hblank (by decide)
  · exact sigma_beyond hascii

theorem finalSigma_not_fixed : ¬ Fixed 'ς' := by
  rintro (hblank | ⟨hascii, _⟩)
  · exact absurd hblank (by decide)
  · exact finalSigma_beyond hascii

/-! ### The tables -/

/-- The Unicode tables behind `str::to_lowercase`. The last fields hold in every
version of Unicode. -/
structure CaseTable where
  /-- `char::to_lowercase` -/
  lower : Char → Text
  cased : Char → Bool
  caseIgnorable : Char → Bool
  ascii : ∀ c, c.toNat < 128 → lower c = [c.toLower]
  /-- The only characters beyond ASCII with an ASCII letter in their lower case are
  the Kelvin sign and the dotted capital I. -/
  beyond : ∀ c, 128 ≤ c.toNat → ∀ x ∈ lower c, x.toNat < 128 → x = 'i' ∨ x = 'k'
  nonempty : ∀ c, lower c ≠ []
  stable : ∀ c, ∀ x ∈ lower c, lower x = [x]
  blank : ∀ c, isWhitespace c = true → lower c = [c]
  blankOnly : ∀ c, ∀ x ∈ lower c, isWhitespace x = true → x = c
  sigma : lower 'Σ' = ['σ']
  finalSigma : lower 'ς' = ['ς']

namespace CaseTable

variable (u : CaseTable)

/-- `case_ignorable_then_cased` -/
def caseIgnorableThenCased (s : Text) : Bool :=
  match s.dropWhile u.caseIgnorable with
  | [] => false
  | c :: _ => u.cased c

/-- `map_uppercase_sigma`, between what comes before it, read backwards, and what
comes after. -/
def mapUppercaseSigma (before after : Text) : Char :=
  if u.caseIgnorableThenCased before && !u.caseIgnorableThenCased after then 'ς' else 'σ'

/-- The loop of `str::to_lowercase`. -/
def toLowercaseFrom : Text → Text → Text
  | _, [] => []
  | before, c :: after =>
      (if c = 'Σ' then [u.mapUppercaseSigma before after] else u.lower c) ++
        toLowercaseFrom (c :: before) after

/-- `str::to_lowercase` -/
def toLowercase (s : Text) : Text := u.toLowercaseFrom [] s

/-- `t` is a lower case of `c`. -/
def Form (c : Char) (t : Text) : Prop := t = u.lower c ∨ c = 'Σ' ∧ t = ['ς']

/-- `s'` is `s` with a lower case in the place of each character. -/
inductive Lowers : Text → Text → Prop where
  | nil : Lowers [] []
  | cons {c : Char} {t s s' : Text} : u.Form c t → Lowers s s' → Lowers (c :: s) (t ++ s')

/-- The text is its own lower case, character by character. -/
def Stable (s : Text) : Prop := ∀ x ∈ s, u.lower x = [x] ∧ x ≠ 'Σ'

section Forms

variable {u} {c x : Char} {t s s' a b a' : Text}

theorem Form.ne_nil (h : u.Form c t) : t ≠ [] := by
  rcases h with rfl | ⟨_, rfl⟩
  · exact u.nonempty c
  · exact List.cons_ne_nil _ _

theorem Form.stable (h : u.Form c t) : u.Stable t := by
  intro x hx
  have hsigma : u.lower x = [x] → x ≠ 'Σ' := by
    rintro hlower rfl
    rw [u.sigma] at hlower
    exact absurd hlower (by decide)
  rcases h with rfl | ⟨_, rfl⟩
  · exact ⟨u.stable c x hx, hsigma (u.stable c x hx)⟩
  · rw [List.mem_singleton.mp hx]
    exact ⟨u.finalSigma, by decide⟩

/-- A character that is no letter is its own lower case. -/
theorem Form.eq_of_fixed (h : u.Form c t) (hc : Fixed c) : t = [c] := by
  rcases h with rfl | ⟨rfl, _⟩
  · rcases hc with hblank | ⟨hascii, hupper, _⟩
    · exact u.blank c hblank
    · have hself : c.toLower = c := by
        rw [← Char.toNat_inj, toNat_toLower, if_neg hupper]
      rw [u.ascii c hascii, hself]
  · exact absurd hc sigma_not_fixed

/-- What is no letter comes from itself only. -/
theorem Form.mem_iff (h : u.Form c t) (hx : Fixed x) : x ∈ t ↔ c = x := by
  constructor
  · intro hmem
    rcases h with rfl | ⟨_, rfl⟩
    · rcases hx with hblank | ⟨hascii, hupper, hlower⟩
      · exact (u.blankOnly c x hmem hblank).symm
      · by_cases hc : c.toNat < 128
        · rw [u.ascii c hc, List.mem_singleton] at hmem
          have hnat := congrArg Char.toNat hmem
          rw [toNat_toLower] at hnat
          apply Char.toNat_inj.mp
          split at hnat <;> omega
        · rcases u.beyond c (Nat.le_of_not_lt hc) x hmem hascii with rfl | rfl
          · exact absurd (by decide) hlower
          · exact absurd (by decide) hlower
    · rw [List.mem_singleton.mp hmem] at hx
      exact absurd hx finalSigma_not_fixed
  · rintro rfl
    rw [h.eq_of_fixed hx]
    exact List.mem_singleton_self c

/-- A class of ASCII characters that does not tell the two cases of a letter apart
says the same of a character and of its lower case. -/
theorem Form.all_iff (h : u.Form c t) {P : Char → Bool}
    (hascii : ∀ y, P y = true → y.toNat < 128 ∧ y ≠ 'i' ∧ y ≠ 'k')
    (hcase : ∀ y, P y.toLower = P y) : t.all P = P c := by
  by_cases hc : c.toNat < 128
  · rcases h with rfl | ⟨rfl, _⟩
    · rw [u.ascii c hc, List.all_cons, List.all_nil, Bool.and_true, hcase]
    · exact absurd hc sigma_beyond
  · have hno : P c = false := Bool.eq_false_iff.mpr fun hP => hc (hascii c hP).1
    obtain ⟨x, hx⟩ := List.exists_mem_of_ne_nil t h.ne_nil
    rw [hno, List.all_eq_false]
    refine ⟨x, hx, fun hP => ?_⟩
    obtain ⟨hlow, hi, hk⟩ := hascii x hP
    rcases h with rfl | ⟨_, rfl⟩
    · rcases u.beyond c (Nat.le_of_not_lt hc) x hx hlow with rfl | rfl
      · exact hi rfl
      · exact hk rfl
    · rw [List.mem_singleton.mp hx] at hlow
      exact absurd hlow finalSigma_beyond

end Forms

section Lowers

variable {u} {c x : Char} {s s' a b rest : Text}

/-- One round of the loop. -/
theorem form_round (before after : Text) (c : Char) :
    u.Form c (if c = 'Σ' then [u.mapUppercaseSigma before after] else u.lower c) := by
  by_cases hsigma : c = 'Σ'
  · subst hsigma
    rw [if_pos rfl, mapUppercaseSigma]
    split
    · exact .inr ⟨rfl, rfl⟩
    · exact .inl u.sigma.symm
  · rw [if_neg hsigma]
    exact .inl rfl

theorem lowers_toLowercaseFrom (before s : Text) : u.Lowers s (u.toLowercaseFrom before s) := by
  induction s generalizing before with
  | nil => exact .nil
  | cons c after ih => exact .cons (form_round before after c) (ih (c :: before))

theorem lowers_toLowercase (s : Text) : u.Lowers s (u.toLowercase s) :=
  lowers_toLowercaseFrom [] s

theorem toLowercaseFrom_of_stable (h : u.Stable s) (before : Text) :
    u.toLowercaseFrom before s = s := by
  induction s generalizing before with
  | nil => rfl
  | cons x s ih =>
      obtain ⟨hx, hs⟩ := List.forall_mem_cons.mp h
      rw [toLowercaseFrom, if_neg hx.2, hx.1, ih hs, List.singleton_append]

/-- A lower-case text is its own lower case. -/
theorem toLowercase_of_stable (h : u.Stable s) : u.toLowercase s = s :=
  toLowercaseFrom_of_stable h []

/-- What is lower case already stays so behind any text. -/
theorem toLowercase_append_of_stable (hb : u.Stable b) :
    ∃ a', u.Lowers a a' ∧ u.toLowercase (a ++ b) = a' ++ b := by
  unfold toLowercase
  generalize ([] : Text) = before
  induction a generalizing before with
  | nil => exact ⟨[], .nil, toLowercaseFrom_of_stable hb before⟩
  | cons c a ih =>
      obtain ⟨a', ha', heq⟩ := ih (c :: before)
      refine ⟨_, .cons (form_round before (a ++ b) c) ha', ?_⟩
      rw [List.cons_append, toLowercaseFrom, heq, List.append_assoc]

theorem Lowers.stable (h : u.Lowers s s') : u.Stable s' := by
  induction h with
  | nil => exact nofun
  | cons hform _ ih => exact List.forall_mem_append.mpr ⟨hform.stable, ih⟩

theorem Lowers.nil_iff (h : u.Lowers s s') : s' = [] ↔ s = [] := by
  cases h with
  | nil => rfl
  | cons hform _ => simp [hform.ne_nil]

/-- The lower case of a text is that of its parts. -/
theorem Lowers.append_inv (h : u.Lowers (a ++ b) s') :
    ∃ a' b', s' = a' ++ b' ∧ u.Lowers a a' ∧ u.Lowers b b' := by
  induction a generalizing s' with
  | nil => exact ⟨[], s', rfl, .nil, h⟩
  | cons c a ih =>
      cases h with
      | cons hform h =>
          obtain ⟨a', b', rfl, ha, hb⟩ := ih h
          exact ⟨_, b', (List.append_assoc _ _ _).symm, .cons hform ha, hb⟩

theorem Lowers.append {a' b' : Text} (ha : u.Lowers a a') (hb : u.Lowers b b') :
    u.Lowers (a ++ b) (a' ++ b') := by
  induction ha with
  | nil => exact hb
  | cons hform _ ih =>
      rw [List.cons_append, List.append_assoc]
      exact .cons hform ih

theorem Lowers.singleton_inv (h : u.Lowers [c] s') : u.Form c s' := by
  cases h with
  | cons hform h =>
      cases h
      rwa [List.append_nil]

/-- What is no letter stands in the lower case where it stands in the text. -/
theorem Lowers.mem_iff (h : u.Lowers s s') (hx : Fixed x) : x ∈ s' ↔ x ∈ s := by
  induction h with
  | nil => rfl
  | cons hform _ ih => rw [List.mem_append, List.mem_cons, ih, hform.mem_iff hx, eq_comm]

theorem Lowers.head?_iff (h : u.Lowers s s') (hx : Fixed x) : x ∈ s'.head? ↔ x ∈ s.head? := by
  cases h with
  | nil => rfl
  | @cons c t s s' hform _ =>
      rw [List.head?_append_of_ne_nil _ hform.ne_nil, List.head?_cons, Option.mem_some_iff]
      constructor
      · intro hhead
        exact (hform.mem_iff hx).mp (List.mem_of_mem_head? hhead)
      · rintro rfl
        rw [hform.eq_of_fixed hx]
        rfl

theorem Lowers.getLast?_iff (h : u.Lowers s s') (hx : Fixed x) :
    x ∈ s'.getLast? ↔ x ∈ s.getLast? := by
  induction s using List.reverseRecOn with
  | nil =>
      cases h
      rfl
  | append_singleton s c _ =>
      obtain ⟨a', t, rfl, _, ht⟩ := h.append_inv
      have hform := ht.singleton_inv
      rw [List.getLast?_append_of_ne_nil _ hform.ne_nil, List.getLast?_concat,
        Option.mem_some_iff]
      constructor
      · intro hlast
        exact (hform.mem_iff hx).mp (List.mem_of_mem_getLast? hlast)
      · rintro rfl
        rw [hform.eq_of_fixed hx]
        rfl

/-- A text starts with what is no letter exactly if its lower case does. -/
theorem Lowers.cons_fixed_iff (h : u.Lowers s s') (hx : Fixed x) :
    (∃ rest', s' = x :: rest') ↔ ∃ rest, s = x :: rest := by
  have hhead := h.head?_iff hx
  constructor
  · rintro ⟨rest', rfl⟩
    obtain ⟨rest, hrest⟩ := List.head?_eq_some_iff.mp (hhead.mp rfl)
    exact ⟨rest, hrest⟩
  · rintro ⟨rest, rfl⟩
    obtain ⟨rest', hrest'⟩ := List.head?_eq_some_iff.mp (hhead.mpr rfl)
    exact ⟨rest', hrest'⟩

theorem Lowers.of_cons_fixed (h : u.Lowers (x :: s) (x :: s')) (hx : Fixed x) : u.Lowers s s' := by
  obtain ⟨a', b', heq, ha, hb⟩ := Lowers.append_inv (a := [x]) h
  rw [ha.singleton_inv.eq_of_fixed hx] at heq
  rwa [(List.cons.inj heq).2]

theorem Lowers.all_iff (h : u.Lowers s s') {P : Char → Bool}
    (hascii : ∀ y, P y = true → y.toNat < 128 ∧ y ≠ 'i' ∧ y ≠ 'k')
    (hcase : ∀ y, P y.toLower = P y) : s'.all P = s.all P := by
  induction h with
  | nil => rfl
  | cons hform _ ih => rw [List.all_append, List.all_cons, hform.all_iff hascii hcase, ih]

end Lowers

/-! ### A table -/

/-- The table of a language with the Latin letters and the sigma. -/
def latin : CaseTable where
  lower c := if c = 'Σ' then ['σ'] else [c.toLower]
  cased c := c.isAlpha || c = 'Σ' || c = 'σ' || c = 'ς'
  caseIgnorable c := c = '.' || c = ':' || c = '^'
  ascii c hc := if_neg (by rintro rfl; exact sigma_beyond hc)
  beyond c hc x hx hascii := by
    split at hx
    · rw [List.mem_singleton.mp hx] at hascii
      exact absurd hascii (by decide)
    · rw [List.mem_singleton.mp hx, toNat_toLower, if_neg (by omega)] at hascii
      exact absurd hascii (Nat.not_lt.mpr hc)
  nonempty c := by split <;> exact List.cons_ne_nil _ _
  stable c x hx := by
    split at hx
    · rw [List.mem_singleton.mp hx]
      decide
    · rename_i hsigma
      have hne : c.toLower ≠ 'Σ' := by
        intro heq
        have hnat := congrArg Char.toNat heq
        rw [toNat_toLower] at hnat
        have hvalue : 'Σ'.toNat = 931 := by decide
        split at hnat
        · omega
        · exact hsigma (Char.toNat_inj.mp hnat)
      have htwice : c.toLower.toLower = c.toLower := by
        rw [← Char.toNat_inj, toNat_toLower c.toLower, toNat_toLower]
        by_cases hupper : 65 ≤ c.toNat ∧ c.toNat ≤ 90
        · rw [if_pos hupper, if_neg (by omega)]
        · rw [if_neg hupper, if_neg hupper]
      rw [List.mem_singleton.mp hx, if_neg hne, htwice]
  blank c hc := by
    have hself : c.toLower = c := by
      rw [isWhitespace_iff] at hc
      rw [← Char.toNat_inj, toNat_toLower, if_neg (by omega)]
    rw [if_neg (by rintro rfl; exact absurd hc (by decide)), hself]
  blankOnly c x hx hblank := by
    split at hx
    · rw [List.mem_singleton.mp hx] at hblank
      exact absurd hblank (by decide)
    · rw [List.mem_singleton.mp hx, isWhitespace_iff, toNat_toLower] at hblank
      rw [List.mem_singleton.mp hx, ← Char.toNat_inj, toNat_toLower]
      by_cases hupper : 65 ≤ c.toNat ∧ c.toNat ≤ 90
      · rw [if_pos hupper] at hblank
        omega
      · rw [if_neg hupper]
  sigma := by decide
  finalSigma := by decide

end CaseTable

end FastDns.Filter
