/-
Local names and addresses in a list (`parse_hosts_line`, `parse_domain_line` and
`looks_like_ip` in `src/blocklist.rs`).

The domain parser refuses a line that is an address or `localhost`, before the marks
of the line are removed and the name is lower-cased; the hosts parser refuses
nothing. What a text adds is therefore free of local names exactly if none of its
entries spells one (`parseAndInsert_keeps_local_out_iff`).
-/

import FastDns.Filter.Entries
import FastDns.Filter.Normal

namespace FastDns.Filter

/-- A name that no list is to block. -/
def LocalName (domain : Text) : Prop := domain = "localhost".toList ∨ looksLikeIp domain = true

/-- The entry is a local name, up to letter case and up to the blanks, the dots and the
wildcard at its ends. -/
def SpellsLocal (e : Text) : Prop :=
  (bare e).map Char.toLower = "localhost".toList ∨ looksLikeIp (bare e) = true

/-! ### Letter case -/

theorem isAsciiDigit_iff (c : Char) : isAsciiDigit c = true ↔ 48 ≤ c.toNat ∧ c.toNat ≤ 57 := by
  rw [isAsciiDigit, Bool.and_eq_true, decide_eq_true_eq, decide_eq_true_eq]
  rfl

/-- A character of an address in the first form. -/
theorem dotted_iff (c : Char) :
    (isAsciiDigit c || c = '.') = true ↔ (48 ≤ c.toNat ∧ c.toNat ≤ 57) ∨ c.toNat = 46 := by
  rw [Bool.or_eq_true, decide_eq_true_eq, isAsciiDigit_iff, ← Char.toNat_inj]
  rfl

/-- A character of an address in the second form. -/
theorem coloned_iff (c : Char) :
    (isAsciiHexdigit c || c = ':' || c = '.') = true ↔
      (48 ≤ c.toNat ∧ c.toNat ≤ 58) ∨ c.toNat = 46 ∨ (97 ≤ c.toNat ∧ c.toNat ≤ 102) ∨
        (65 ≤ c.toNat ∧ c.toNat ≤ 70) := by
  have hletters : ((('a' ≤ c && c ≤ 'f') || ('A' ≤ c && c ≤ 'F')) = true) ↔
      (97 ≤ c.toNat ∧ c.toNat ≤ 102) ∨ (65 ≤ c.toNat ∧ c.toNat ≤ 70) := by
    simp only [Bool.or_eq_true, Bool.and_eq_true, decide_eq_true_eq]
    rfl
  have hcolon : c = ':' ↔ c.toNat = 58 := Char.toNat_inj.symm
  have hdot : c = '.' ↔ c.toNat = 46 := Char.toNat_inj.symm
  rw [isAsciiHexdigit, Bool.or_assoc (isAsciiDigit c), Bool.or_eq_true, Bool.or_eq_true,
    Bool.or_eq_true, hletters, isAsciiDigit_iff, decide_eq_true_eq, decide_eq_true_eq, hcolon, hdot]
  omega

namespace CaseTable

section Spelling

variable {u : CaseTable} {s s' t : Text} {c : Char}

theorem Form.eq_toLower (h : u.Form c t) (hc : c.toNat < 128) : t = [c.toLower] := by
  rcases h with rfl | ⟨rfl, _⟩
  · exact u.ascii c hc
  · exact absurd hc sigma_beyond

/-- A lower case in plain ASCII, without the two letters that others share, is that of
an ASCII character. -/
theorem Form.ascii_of_plain (h : u.Form c t)
    (hplain : ∀ x ∈ t, x.toNat < 128 ∧ x ≠ 'i' ∧ x ≠ 'k') : c.toNat < 128 := by
  by_contra hc
  obtain ⟨x, hx⟩ := List.exists_mem_of_ne_nil t h.ne_nil
  obtain ⟨hlow, hi, hk⟩ := hplain x hx
  rcases h with rfl | ⟨_, rfl⟩
  · rcases u.beyond c (Nat.le_of_not_lt hc) x hx hlow with rfl | rfl
    · exact hi rfl
    · exact hk rfl
  · rw [List.mem_singleton.mp hx] at hlow
    exact absurd hlow finalSigma_beyond

/-- A word of such letters has no other spelling than in two letter cases. -/
theorem Lowers.eq_plain_iff (h : u.Lowers s s')
    (hplain : ∀ x ∈ t, x.toNat < 128 ∧ x ≠ 'i' ∧ x ≠ 'k') :
    s' = t ↔ s.map Char.toLower = t := by
  induction h generalizing t with
  | nil => rfl
  | @cons c form s s' hform _ ih =>
      rw [List.map_cons]
      constructor
      · rintro rfl
        obtain ⟨hfirst, hrest⟩ := List.forall_mem_append.mp hplain
        rw [hform.eq_toLower (hform.ascii_of_plain hfirst), (ih hrest).mp rfl]
        rfl
      · rintro rfl
        obtain ⟨hfirst, hrest⟩ := List.forall_mem_cons.mp hplain
        have hc : c.toNat < 128 := by
          have hlow := hfirst.1
          rw [toNat_toLower] at hlow
          split at hlow <;> omega
        rw [hform.eq_toLower hc, (ih hrest).mpr rfl]
        rfl

/-- Letter case does not make an address. -/
theorem Lowers.looksLikeIp_eq (h : u.Lowers s s') : looksLikeIp s' = looksLikeIp s := by
  have hcontains : ∀ x, Fixed x → s'.contains x = s.contains x := by
    intro x hx
    rw [Bool.eq_iff_iff, List.contains_iff_mem, List.contains_iff_mem, h.mem_iff hx]
  have hi : 'i'.toNat = 105 := by decide
  have hk : 'k'.toNat = 107 := by decide
  have hdotted : s'.all (fun c => isAsciiDigit c || c = '.') =
      s.all fun c => isAsciiDigit c || c = '.' := by
    refine h.all_iff (fun y hy => ?_) fun y => ?_
    · rw [dotted_iff] at hy
      refine ⟨by omega, ?_, ?_⟩ <;> rintro rfl <;> omega
    · rw [Bool.eq_iff_iff, dotted_iff, dotted_iff, toNat_toLower]
      split <;> omega
  have hcoloned : s'.all (fun c => isAsciiHexdigit c || c = ':' || c = '.') =
      s.all fun c => isAsciiHexdigit c || c = ':' || c = '.' := by
    refine h.all_iff (fun y hy => ?_) fun y => ?_
    · rw [coloned_iff] at hy
      refine ⟨by omega, ?_, ?_⟩ <;> rintro rfl <;> omega
    · rw [Bool.eq_iff_iff, coloned_iff, coloned_iff, toNat_toLower]
      split <;> omega
  unfold looksLikeIp
  rw [hcontains '.' fixed_dot, hcontains ':' (.inr (by decide)), hdotted, hcoloned]

end Spelling

end CaseTable

theorem plain_localhost :
    ∀ x ∈ "localhost".toList, x.toNat < 128 ∧ x ≠ 'i' ∧ x ≠ 'k' := by
  have hall : ("localhost".toList.all fun x => x.toNat < 128 && x ≠ 'i' && x ≠ 'k') = true := by
    decide
  intro x hx
  have hplain := List.all_eq_true.mp hall x hx
  simpa only [Bool.and_eq_true, decide_eq_true_eq, and_assoc] using hplain

/-! ### What a text adds -/

/-- **When a text adds no local name.** It does not, exactly if none of its entries
spells one. -/
theorem parseAndInsert_keeps_local_out_iff (u : CaseTable) (data : Text) :
    (∀ blocked, ∀ domain ∈ (parseAndInsert u.toLowercase data blocked).1,
        domain ∈ blocked ∨ ¬ LocalName domain) ↔
      ∀ e ∈ entries u.toLowercase data, ¬ SpellsLocal e := by
  have hlocal : ∀ e, LocalName (normaliseDomain u.toLowercase e) ↔ SpellsLocal e := by
    intro e
    have hlowers := CaseTable.lowers_normalise (u := u) e
    rw [LocalName, SpellsLocal, hlowers.looksLikeIp_eq, hlowers.eq_plain_iff plain_localhost]
  simp only [parseAndInsert_blocked, Finset.mem_union, mem_domains_iff]
  constructor
  · intro h e he
    rw [← hlocal]
    rcases h ∅ _ (.inr ⟨e, he, rfl⟩) with hempty | hno
    · exact absurd hempty (Finset.notMem_empty _)
    · exact hno
  · rintro h blocked domain (hmem | ⟨e, he, rfl⟩)
    · exact .inl hmem
    · exact .inr ((hlocal e).not.mpr (h e he))

/-- The first line of a hosts file adds `localhost`, and so does an address in the
second place add itself. -/
theorem hostsFile_adds_local :
    ¬ ∀ domain ∈ (parseAndInsert CaseTable.latin.toLowercase
        "127.0.0.1 localhost\n0.0.0.0 0.0.0.0\n".toList ∅).1,
      domain ∈ (∅ : Finset Text) ∨ ¬ LocalName domain := by
  intro h
  have hadds : "localhost".toList ∈ (parseAndInsert CaseTable.latin.toLowercase
      "127.0.0.1 localhost\n0.0.0.0 0.0.0.0\n".toList ∅).1 := by
    decide +kernel
  rcases h _ hadds with hempty | hno
  · exact absurd hempty (Finset.notMem_empty _)
  · exact hno (.inl rfl)

end FastDns.Filter
