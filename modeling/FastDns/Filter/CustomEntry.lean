/-
The three formats of a custom record (`parse_custom_dns_entry` in
`src/blocklist.rs`): `domain=value`, `domain value` and `domain:value`.

The separators are looked for in the whole entry, `=` first, then `:`, then
whitespace (`parseCustomDnsEntry_of_equals` and the two lemmas behind it). So a
value with colons is cut at its first colon where whitespace separates it from the
name, and the slice one byte behind a separator is inside a character if the
whitespace is longer than a byte.
-/

import FastDns.Filter.Text

namespace FastDns.Filter

open FastDns.Lib

/-! ### Cutting an entry -/

section Cutting

variable {p : Char → Bool} {before after entry : Text} {c : Char}

theorem splitAtFirst_none (h : ∀ x ∈ entry, p x = false) : splitAtFirst p entry = .ok none := by
  have hnone : entry.dropWhile (fun x => !p x) = [] := by
    rw [List.dropWhile_eq_nil_iff]
    intro x hx
    simp [h x hx]
  rw [splitAtFirst, hnone]

/-- A text is cut at the first separator. -/
theorem splitAtFirst_append (hbefore : ∀ x ∈ before, p x = false) (hc : p c = true) :
    splitAtFirst p (before ++ c :: after) =
      if c.utf8Size = 1 then .ok (some (trim before, trim after)) else .panic := by
  have hskip : ∀ x ∈ before, (!p x) = true := fun x hx => by simp [hbefore x hx]
  have hdrop : (c :: after).dropWhile (fun x => !p x) = c :: after :=
    List.dropWhile_cons_of_neg (by simp [hc])
  have htake : (c :: after).takeWhile (fun x => !p x) = [] :=
    List.takeWhile_cons_of_neg (by simp [hc])
  rw [splitAtFirst, List.dropWhile_append_of_pos hskip, hdrop,
    List.takeWhile_append_of_pos hskip, htake, List.append_nil]

/-- Where the first separator stands. -/
theorem exists_first (h : ∃ x ∈ entry, p x = true) :
    ∃ before c after, entry = before ++ c :: after ∧ (∀ x ∈ before, p x = false) ∧ p c = true ∧
      entry.find? p = some c := by
  obtain ⟨c, hfind⟩ := Option.isSome_iff_exists.mp (List.find?_isSome.mpr h)
  obtain ⟨hc, before, after, rfl, hbefore⟩ := List.find?_eq_some_iff_append.mp hfind
  exact ⟨before, c, after, rfl, fun x hx => by simpa using hbefore x hx, hc, hfind⟩

end Cutting

/-! ### The order of the separators -/

section Order

variable {before after entry : Text} {c : Char}

/-- The two marks are no whitespace. -/
theorem isWhitespace_equals : isWhitespace '=' = false := by decide

theorem isWhitespace_colon : isWhitespace ':' = false := by decide

theorem splitAtFirst_of_not_mem (h : c ∉ entry) :
    splitAtFirst (fun x => x = c) entry = .ok none :=
  splitAtFirst_none fun _ hx => decide_eq_false fun heq => h (heq ▸ hx)

theorem parseCustomDnsEntry_of_equals (htrim : trim entry = before ++ '=' :: after)
    (hbefore : '=' ∉ before) :
    parseCustomDnsEntry entry = .ok (trim before, trim after) := by
  have hfirst : ∀ x ∈ before, decide (x = '=') = false :=
    fun x hx => decide_eq_false fun heq => hbefore (heq ▸ hx)
  unfold parseCustomDnsEntry
  dsimp only
  rw [htrim, splitAtFirst_append hfirst (by decide), if_pos (by decide), Outcome.ok_bind]
  rfl

theorem parseCustomDnsEntry_of_colon (hequals : '=' ∉ entry)
    (htrim : trim entry = before ++ ':' :: after) (hbefore : ':' ∉ before) :
    parseCustomDnsEntry entry = .ok (trim before, trim after) := by
  have hfirst : ∀ x ∈ before, decide (x = ':') = false :=
    fun x hx => decide_eq_false fun heq => hbefore (heq ▸ hx)
  have hnone := splitAtFirst_of_not_mem ((mem_trim_iff isWhitespace_equals).not.mpr hequals)
  unfold parseCustomDnsEntry
  dsimp only
  rw [hnone, Outcome.ok_bind]
  dsimp only
  rw [htrim, splitAtFirst_append hfirst (by decide), if_pos (by decide), Outcome.ok_bind]
  rfl

/-- Without the two marks the whitespace decides. -/
theorem parseCustomDnsEntry_of_not_mem (hequals : '=' ∉ entry) (hcolon : ':' ∉ entry) :
    parseCustomDnsEntry entry =
      splitAtFirst isWhitespace (trim entry) >>= fun found =>
        pure (found.getD (trim entry, [])) := by
  have hequals' := splitAtFirst_of_not_mem ((mem_trim_iff isWhitespace_equals).not.mpr hequals)
  have hcolon' := splitAtFirst_of_not_mem ((mem_trim_iff isWhitespace_colon).not.mpr hcolon)
  unfold parseCustomDnsEntry
  dsimp only
  rw [hequals', Outcome.ok_bind]
  dsimp only
  rw [hcolon', Outcome.ok_bind]
  dsimp only
  congr 1
  funext found
  cases found with
  | none => rfl
  | some parts => rfl

theorem parseCustomDnsEntry_of_blank (hequals : '=' ∉ entry) (hcolon : ':' ∉ entry)
    (htrim : trim entry = before ++ c :: after) (hbefore : ∀ x ∈ before, isWhitespace x = false)
    (hc : isWhitespace c = true) :
    parseCustomDnsEntry entry =
      if c.utf8Size = 1 then .ok (trim before, trim after) else .panic := by
  rw [parseCustomDnsEntry_of_not_mem hequals hcolon, htrim, splitAtFirst_append hbefore hc]
  split
  · rfl
  · rfl

theorem parseCustomDnsEntry_of_no_blank (hequals : '=' ∉ entry) (hcolon : ':' ∉ entry)
    (hblank : ∀ x ∈ trim entry, isWhitespace x = false) :
    parseCustomDnsEntry entry = .ok (trim entry, []) := by
  rw [parseCustomDnsEntry_of_not_mem hequals hcolon, splitAtFirst_none hblank]
  rfl

end Order

/-! ### The three formats -/

/-- A name without separators, and a value without `=` and without blanks around
it. -/
structure CustomPair (domain value : Text) : Prop where
  name : ∀ c ∈ domain, c ≠ '=' ∧ c ≠ ':' ∧ isWhitespace c = false
  present : value ≠ []
  noEquals : '=' ∉ value
  trimmed : Trimmed value

instance (domain value : Text) : Decidable (CustomPair domain value) :=
  decidable_of_iff
    ((domain.all fun c => c ≠ '=' && c ≠ ':' && !isWhitespace c) = true ∧ value ≠ [] ∧
      '=' ∉ value ∧ trim value = value) (by
    simp only [List.all_eq_true, Bool.and_eq_true, decide_eq_true_eq, Bool.not_eq_true', and_assoc,
      trim_eq_self_iff]
    exact ⟨fun ⟨hname, hne, hequals, htrim⟩ => ⟨hname, hne, hequals, htrim⟩,
      fun h => ⟨h.name, h.present, h.noEquals, h.trimmed⟩⟩)

/-- Each format gives the name and the value. -/
def ParsesAlike (domain blanks value : Text) : Prop :=
  parseCustomDnsEntry (domain ++ '=' :: value) = .ok (domain, value) ∧
    parseCustomDnsEntry (domain ++ (blanks ++ value)) = .ok (domain, value) ∧
    parseCustomDnsEntry (domain ++ ':' :: value) = .ok (domain, value)

namespace CustomPair

variable {domain value blanks : Text}

theorem trim_domain (h : CustomPair domain value) : trim domain = domain :=
  Trimmed.trim_eq ⟨fun c hc => (h.name c (List.mem_of_mem_head? hc)).2.2,
    fun c hc => (h.name c (List.mem_of_mem_getLast? hc)).2.2⟩

theorem not_mem (h : CustomPair domain value) : '=' ∉ domain ∧ ':' ∉ domain :=
  ⟨fun hmem => (h.name _ hmem).1 rfl, fun hmem => (h.name _ hmem).2.1 rfl⟩

/-- A mark between the name and the value. -/
theorem trim_mark (h : CustomPair domain value) {mark : Char}
    (hmark : isWhitespace mark = false) :
    trim (domain ++ mark :: value) = domain ++ mark :: value := by
  have hhead : ∀ c ∈ (domain ++ [mark]).head?, isWhitespace c = false := by
    intro c hc
    rcases List.mem_append.mp (List.mem_of_mem_head? hc) with hmem | hmem
    · exact (h.name c hmem).2.2
    · rw [List.mem_singleton.mp hmem]
      exact hmark
  have htrim := (h.trimmed.append_left h.present hhead).trim_eq
  rwa [List.append_assoc, List.singleton_append] at htrim

theorem parse_equals (h : CustomPair domain value) :
    parseCustomDnsEntry (domain ++ '=' :: value) = .ok (domain, value) := by
  rw [parseCustomDnsEntry_of_equals (h.trim_mark isWhitespace_equals) h.not_mem.1, h.trim_domain,
    h.trimmed.trim_eq]

theorem parse_colon (h : CustomPair domain value) :
    parseCustomDnsEntry (domain ++ ':' :: value) = .ok (domain, value) := by
  have hequals : '=' ∉ domain ++ ':' :: value := by
    simp [h.not_mem.1, h.noEquals]
  rw [parseCustomDnsEntry_of_colon hequals (h.trim_mark isWhitespace_colon) h.not_mem.2,
    h.trim_domain, h.trimmed.trim_eq]

/-- What is left of a value behind a separator is not the value. -/
theorem trim_ne_value {before after : Text} {c : Char} (hvalue : value = before ++ c :: after) :
    trim after ≠ value := by
  intro heq
  have hle := length_trim_le after
  rw [heq, hvalue, List.length_append, List.length_cons] at hle
  omega

/-- A mark that is in neither part is not between them. -/
theorem not_mem_entry (hblanks : ∀ c ∈ blanks, isWhitespace c = true) {mark : Char}
    (hmark : isWhitespace mark = false) (hdomain : mark ∉ domain) (hvalue : mark ∉ value) :
    mark ∉ domain ++ (blanks ++ value) := by
  have hno : mark ∉ blanks := by
    intro hmem
    rw [hblanks mark hmem] at hmark
    cases hmark
  simp only [List.mem_append, hdomain, hno, hvalue, or_self, not_false_eq_true]

/-- The entry with whitespace, trimmed: the blanks stay if there is a name. -/
theorem trim_blanks (h : CustomPair domain value) (hblanks : ∀ c ∈ blanks, isWhitespace c = true) :
    trim (domain ++ (blanks ++ value)) =
      if domain = [] then value else domain ++ (blanks ++ value) := by
  split
  · rename_i hnil
    have hbetween := trim_between (b := []) hblanks nofun h.trimmed
    rwa [List.append_nil, ← List.nil_append (blanks ++ value), ← hnil] at hbetween
  · rename_i hne
    have hhead : ∀ c ∈ (domain ++ blanks).head?, isWhitespace c = false := by
      intro c hc
      rw [List.head?_append_of_ne_nil _ hne] at hc
      exact (h.name c (List.mem_of_mem_head? hc)).2.2
    have htrim := (h.trimmed.append_left h.present hhead).trim_eq
    rwa [List.append_assoc] at htrim

/-- A value with a colon is cut there. -/
theorem parse_blanks_of_colon (h : CustomPair domain value)
    (hblanks : ∀ c ∈ blanks, isWhitespace c = true) (hcolon : ':' ∈ value) :
    parseCustomDnsEntry (domain ++ (blanks ++ value)) ≠ .ok (domain, value) := by
  obtain ⟨before, after, hvalue, hfirst⟩ := List.eq_append_cons_of_mem hcolon
  have hequals : '=' ∉ domain ++ (blanks ++ value) :=
    not_mem_entry hblanks isWhitespace_equals h.not_mem.1 h.noEquals
  obtain ⟨front, htrim, hfront⟩ : ∃ front,
      trim (domain ++ (blanks ++ value)) = front ++ ':' :: after ∧ ':' ∉ front := by
    rw [h.trim_blanks hblanks]
    split
    · exact ⟨before, hvalue, hfirst⟩
    · exact ⟨domain ++ (blanks ++ before), by simp [hvalue],
        not_mem_entry hblanks isWhitespace_colon h.not_mem.2 hfirst⟩
  rw [parseCustomDnsEntry_of_colon hequals htrim hfront]
  intro heq
  have hsame := (Prod.mk.inj (Outcome.ok.inj heq)).2
  exact trim_ne_value hvalue hsame

/-- Without a name the value is the whole entry. -/
theorem parse_blanks_of_nil (h : CustomPair [] value)
    (hblanks : ∀ c ∈ blanks, isWhitespace c = true) (hcolon : ':' ∉ value) :
    parseCustomDnsEntry (blanks ++ value) ≠ .ok ([], value) := by
  have htrim : trim (blanks ++ value) = value := h.trim_blanks hblanks
  have hequals : '=' ∉ blanks ++ value :=
    not_mem_entry hblanks isWhitespace_equals h.not_mem.1 h.noEquals
  have hcolon' : ':' ∉ blanks ++ value :=
    not_mem_entry hblanks isWhitespace_colon h.not_mem.2 hcolon
  by_cases hinner : ∃ c ∈ value, isWhitespace c = true
  · obtain ⟨before, c, after, hvalue, hfirst, hc, _⟩ := exists_first hinner
    rw [parseCustomDnsEntry_of_blank hequals hcolon' (htrim.trans hvalue) hfirst hc]
    split
    · intro heq
      have hsame := (Prod.mk.inj (Outcome.ok.inj heq)).2
      exact trim_ne_value hvalue hsame
    · nofun
  · have hno : ∀ c ∈ trim (blanks ++ value), isWhitespace c = false := by
      rw [htrim]
      intro c hc
      exact Bool.eq_false_iff.mpr fun hblank => hinner ⟨c, hc, hblank⟩
    rw [parseCustomDnsEntry_of_no_blank hequals hcolon' hno, htrim]
    intro heq
    cases heq
    exact h.present rfl

/-- Whitespace between a name and a value without colons. -/
theorem parse_blanks (h : CustomPair domain value) (hdomain : domain ≠ []) {blank : Char}
    (hblanks : ∀ c ∈ blank :: blanks, isWhitespace c = true) (hcolon : ':' ∉ value) :
    parseCustomDnsEntry (domain ++ (blank :: blanks ++ value)) =
      if blank.utf8Size = 1 then .ok (domain, value) else .panic := by
  obtain ⟨hblank, hrest⟩ := List.forall_mem_cons.mp hblanks
  have htrim : trim (domain ++ (blank :: blanks ++ value)) =
      domain ++ blank :: (blanks ++ value) := by
    rw [h.trim_blanks hblanks, if_neg hdomain]
    rfl
  have hequals : '=' ∉ domain ++ (blank :: blanks ++ value) :=
    not_mem_entry hblanks isWhitespace_equals h.not_mem.1 h.noEquals
  have hcolon' : ':' ∉ domain ++ (blank :: blanks ++ value) :=
    not_mem_entry hblanks isWhitespace_colon h.not_mem.2 hcolon
  have hvalue : trim (blanks ++ value) = value := by
    simpa using trim_between (b := []) hrest nofun h.trimmed
  rw [parseCustomDnsEntry_of_blank hequals hcolon' htrim (fun x hx => (h.name x hx).2.2) hblank,
    h.trim_domain, hvalue]

end CustomPair

/-- A call returns unless it cuts inside a character: no mark is there, and the
first blank is longer than a byte. -/
theorem parseCustomDnsEntry_returns_iff (entry : Text) :
    (∃ pair, parseCustomDnsEntry entry = .ok pair) ↔
      '=' ∈ entry ∨ ':' ∈ entry ∨ ∀ c ∈ (trim entry).find? isWhitespace, c.utf8Size = 1 := by
  by_cases hequals : '=' ∈ entry
  · obtain ⟨before, after, htrim, hbefore⟩ :=
      List.eq_append_cons_of_mem ((mem_trim_iff isWhitespace_equals).mpr hequals)
    exact iff_of_true ⟨_, parseCustomDnsEntry_of_equals htrim hbefore⟩ (.inl hequals)
  by_cases hcolon : ':' ∈ entry
  · obtain ⟨before, after, htrim, hbefore⟩ :=
      List.eq_append_cons_of_mem ((mem_trim_iff isWhitespace_colon).mpr hcolon)
    exact iff_of_true ⟨_, parseCustomDnsEntry_of_colon hequals htrim hbefore⟩ (.inr (.inl hcolon))
  rw [or_iff_right hequals, or_iff_right hcolon]
  by_cases hblank : ∃ c ∈ trim entry, isWhitespace c = true
  · obtain ⟨before, c, after, htrim, hbefore, hc, hfind⟩ := exists_first hblank
    rw [parseCustomDnsEntry_of_blank hequals hcolon htrim hbefore hc, hfind]
    by_cases hsize : c.utf8Size = 1
    · rw [if_pos hsize]
      exact iff_of_true ⟨_, rfl⟩ fun x hx => Option.mem_some.mp hx ▸ hsize
    · rw [if_neg hsize]
      exact iff_of_false nofun fun hall => hsize (hall c rfl)
  · have hno : ∀ c ∈ trim entry, isWhitespace c = false :=
      fun c hc => Bool.eq_false_iff.mpr fun h => hblank ⟨c, hc, h⟩
    have hfind : (trim entry).find? isWhitespace = none := by
      rw [List.find?_eq_none]
      exact fun c hc => by simp [hno c hc]
    rw [hfind]
    exact iff_of_true ⟨_, parseCustomDnsEntry_of_no_blank hequals hcolon hno⟩ nofun

/-- **When the three formats say the same.** With `=` and with `:` a name and a
value are always found. With whitespace they are found exactly if there is a name,
the value has no colon and the first blank is one byte. And on every string the
call returns exactly if it has a mark or its first blank is one byte. -/
theorem customFormats_iff {domain value : Text} (h : CustomPair domain value) (blanks : Text)
    (hne : blanks ≠ []) (hblanks : ∀ c ∈ blanks, isWhitespace c = true) :
    (ParsesAlike domain blanks value ↔
      domain ≠ [] ∧ ':' ∉ value ∧ ∀ c ∈ blanks.head?, c.utf8Size = 1) ∧
      ∀ entry, (∃ pair, parseCustomDnsEntry entry = .ok pair) ↔
        '=' ∈ entry ∨ ':' ∈ entry ∨
          ∀ c ∈ (trim entry).find? isWhitespace, c.utf8Size = 1 := by
  refine ⟨?_, parseCustomDnsEntry_returns_iff⟩
  rw [ParsesAlike, and_iff_right h.parse_equals, and_iff_left h.parse_colon]
  by_cases hcolon : ':' ∈ value
  · exact iff_of_false (h.parse_blanks_of_colon hblanks hcolon) fun hall => hall.2.1 hcolon
  by_cases hdomain : domain = []
  · subst hdomain
    exact iff_of_false (h.parse_blanks_of_nil hblanks hcolon) fun hall => hall.1 rfl
  obtain ⟨blank, rest, rfl⟩ := List.exists_cons_of_ne_nil hne
  rw [h.parse_blanks hdomain hblanks hcolon]
  by_cases hsize : blank.utf8Size = 1
  · rw [if_pos hsize]
    exact iff_of_true rfl ⟨hdomain, hcolon, fun c hc => Option.mem_some.mp hc ▸ hsize⟩
  · rw [if_neg hsize]
    exact iff_of_false nofun fun hall => hsize (hall.2.2 blank rfl)

/-- The address `::1` is lost behind a space. -/
theorem customFormats_differ :
    ¬ ParsesAlike "host.lan".toList " ".toList "::1".toList := by
  unfold ParsesAlike
  decide +kernel

/-- An IPv4 address behind two blanks is not. -/
theorem customFormats_ipv4 :
    ParsesAlike "host.lan".toList [' ', '\t'] "10.0.0.1".toList ∧
      ∃ pair, parseCustomDnsEntry "host.lan".toList = .ok pair := by
  have hpair : CustomPair "host.lan".toList "10.0.0.1".toList := by decide +kernel
  have hblanks : ∀ c ∈ [' ', '\t'], isWhitespace c = true :=
    List.forall_mem_cons.mpr ⟨by decide, List.forall_mem_singleton.mpr (by decide)⟩
  have hbare : (trim "host.lan".toList).find? isWhitespace = none := by decide +kernel
  obtain ⟨hformats, hreturns⟩ :=
    customFormats_iff hpair [' ', '\t'] (List.cons_ne_nil _ _) hblanks
  refine ⟨hformats.mpr ⟨by decide +kernel, by decide +kernel, ?_⟩,
    (hreturns _).mpr (.inr (.inr ?_))⟩
  · rintro _ ⟨⟩
    decide
  · rw [hbare]
    nofun

end FastDns.Filter
