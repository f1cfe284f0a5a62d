/-
The text form of names (`src/dns/types.rs`): `labels_to_string` and
`encode_domain_name` against the list of labels.

A name is the wire form of its labels (`wireName`), and its text is the labels
that are UTF-8, joined by dots (`labelsToString_wireName`). The encoder cuts a
text at its dots (`textLabels`) and writes the wire form of the parts in lower
case (`encodeDomainName_eq`). So the text says what the name is as long as every
label is text without a dot (`TextSafe`).
-/

import FastDns.Dns.RdataLayout
import FastDns.Lib.Text

namespace FastDns.Dns

open FastDns.Lib

/-! ### Labels and wire form -/

/-- The labels of a name as they are spelled. -/
def rawLabels (name : Bytes) : List Bytes := labelsLoop name.length name

/-- Every label of the name is text without a dot. -/
def TextSafe (name : Bytes) : Prop :=
  ∀ label ∈ rawLabels name, validUtf8 label = true ∧ 46 ∉ label

instance (name : Bytes) : Decidable (TextSafe name) :=
  inferInstanceAs (Decidable (∀ label ∈ rawLabels name, validUtf8 label = true ∧ 46 ∉ label))

/-- The labels in lower case. -/
def lowerAll (labels : List Bytes) : List Bytes := labels.map (List.map asciiLower)

@[simp] theorem lowerAll_nil : lowerAll [] = [] := rfl

@[simp] theorem lowerAll_cons (label : Bytes) (labels : List Bytes) :
    lowerAll (label :: labels) = label.map asciiLower :: lowerAll labels := rfl

theorem dot_mem_map_asciiLower {label : Bytes} : 46 ∈ label.map asciiLower ↔ 46 ∈ label := by
  have hdot : ∀ x, asciiLower x = 46 ↔ x = 46 := fun x => asciiLower_eq_iff (by decide)
  simp only [List.mem_map, hdot, exists_eq_right]

section Wire

variable {labels as bs : List Bytes}

theorem LabelsOk.lowerAll (h : LabelsOk labels) : LabelsOk (lowerAll labels) := by
  intro label hl
  obtain ⟨l, hmem, rfl⟩ := List.mem_map.mp hl
  obtain ⟨hne, hlen⟩ := h l hmem
  exact ⟨by simpa using hne, by simpa using hlen⟩

theorem labelsLoop_wireName {fuel : Nat} (h : LabelWalk fuel labels) :
    labelsLoop fuel (wireName labels) = labels := by
  induction h with
  | root fuel => rfl
  | label h _ ih =>
      simp only [wireName, List.cons_append, labelsLoop, if_neg h.length_ne_zero, h.toNat_length,
        List.take_left, List.drop_left, ih]

theorem rawLabels_wireName (h : LabelsOk labels) : rawLabels (wireName labels) = labels :=
  labelsLoop_wireName h.walk_wireName

/-- A name ends where its labels end: what follows it is no part of it. -/
theorem wireName_append_inj {x y : Bytes} (ha : LabelsOk as) (hb : LabelsOk bs)
    (h : wireName as ++ x = wireName bs ++ y) : as = bs ∧ x = y := by
  induction as generalizing bs with
  | nil =>
      cases bs with
      | nil => exact ⟨rfl, List.append_cancel_left h⟩
      | cons b bs => exact absurd (List.cons.inj h).1.symm hb.length_ne_zero
  | cons a as ih =>
      cases bs with
      | nil => exact absurd (List.cons.inj h).1 ha.length_ne_zero
      | cons b bs =>
          simp only [wireName, List.cons_append, List.append_assoc, List.cons.injEq] at h
          have hlen : a.length = b.length := by
            rw [← ha.toNat_length, ← hb.toNat_length, h.1]
          obtain ⟨rfl, hrest⟩ := List.append_inj h.2 hlen
          obtain ⟨rfl, rfl⟩ := ih ha.tail hb.tail hrest
          exact ⟨rfl, rfl⟩

theorem wireName_inj (ha : LabelsOk as) (hb : LabelsOk bs) (h : wireName as = wireName bs) :
    as = bs :=
  (wireName_append_inj ha hb (congrArg (· ++ []) h)).1

theorem wireName_lowerAll_cons (label : Bytes) :
    wireName (lowerAll (label :: labels)) =
      UInt8.ofNat label.length :: label.map asciiLower ++ wireName (lowerAll labels) := by
  simp [lowerAll, wireName]

/-- Length bytes are no letters. -/
theorem map_asciiLower_wireName (h : LabelsOk labels) :
    (wireName labels).map asciiLower = wireName (lowerAll labels) := by
  induction labels with
  | nil => rfl
  | cons label labels ih =>
      have hlen : asciiLower (UInt8.ofNat label.length) = UInt8.ofNat label.length := by
        apply UInt8.toNat_inj.mp
        have hle := (h label List.mem_cons_self).2
        rw [toNat_asciiLower, h.toNat_length, if_neg (by omega)]
      rw [wireName, List.map_append, List.map_cons, ih h.tail, hlen, wireName_lowerAll_cons]

end Wire

/-! ### From names to text -/

section ToText

variable {labels : List Bytes}

theorem labelParts_wireName {fuel : Nat} (h : LabelWalk fuel labels) :
    labelParts fuel (wireName labels) = labels.filter validUtf8 := by
  induction h with
  | root fuel => rfl
  | @label fuel label labels h _ ih =>
      have hfits : ¬ (label ++ wireName labels).length < label.length := by
        rw [List.length_append]
        omega
      simp only [wireName, List.cons_append, labelParts, if_neg h.length_ne_zero, h.toNat_length,
        if_neg hfits, List.take_left, List.drop_left, ih, List.filter_cons]

/-- `labels_to_string` joins the labels that are text. -/
theorem labelsToString_wireName (h : LabelsOk labels) :
    labelsToString (wireName labels) =
      if labels.filter validUtf8 = [] then [46] else [46].intercalate (labels.filter validUtf8) := by
  rw [labelsToString, labelParts_wireName h.walk_wireName]
  simp only [List.isEmpty_iff]

end ToText

/-! ### From text to names -/

/-- The labels a text is cut into: none in the root, which is a row of dots. -/
def textLabels (name : Bytes) : List Bytes :=
  if trimEndDots name = [] then [] else (trimEndDots name).splitOn 46

section FromText

variable {name text : Bytes} {labels : List Bytes}

theorem encodeLabels_of_labelsOk (h : LabelsOk labels) :
    ∃ encoded, encodeLabels labels = .ok encoded ∧ encoded ++ [0] = wireName (lowerAll labels) := by
  induction labels with
  | nil => exact ⟨[], rfl, rfl⟩
  | cons label labels ih =>
      obtain ⟨encoded, hok, hwire⟩ := ih h.tail
      obtain ⟨hne, hlen⟩ := h label List.mem_cons_self
      refine ⟨UInt8.ofNat label.length :: label.map asciiLower ++ encoded, ?_, ?_⟩
      · rw [encodeLabels, if_neg (by simpa using hne), if_neg (by omega), hok, Outcome.ok_bind]
        rfl
      · rw [List.append_assoc, hwire, wireName_lowerAll_cons]

theorem encodeLabels_of_not_labelsOk (h : ¬ LabelsOk labels) :
    ∃ e, encodeLabels labels = .err e := by
  rcases encodeLabels_ends labels with ⟨encoded, hok⟩ | herr
  · refine absurd (fun label hl => ?_) h
    have hlower := (encodeLabels_eq_ok hok).1 _ (List.mem_map_of_mem hl)
    exact ⟨by simpa using hlower.1, by simpa using hlower.2⟩
  · exact herr

/-- **What `encode_domain_name` returns**: the wire form of the labels of the
text in lower case, or an error if one of them is empty or too long. -/
theorem encodeDomainName_eq (name : Bytes) :
    (LabelsOk (textLabels name) →
      encodeDomainName name = .ok (wireName (lowerAll (textLabels name)))) ∧
      (¬ LabelsOk (textLabels name) → ∃ e, encodeDomainName name = .err e) := by
  unfold encodeDomainName textLabels
  by_cases hroot : trimEndDots name = []
  · simp only [hroot, List.isEmpty_nil, if_true]
    exact ⟨fun _ => rfl, fun h => absurd labelsOk_nil h⟩
  · simp only [List.isEmpty_iff, hroot, if_false]
    constructor
    · intro h
      obtain ⟨encoded, hok, hwire⟩ := encodeLabels_of_labelsOk h
      rw [hok, Outcome.ok_bind, Outcome.pure_eq, hwire]
    · intro h
      obtain ⟨e, herr⟩ := encodeLabels_of_not_labelsOk h
      exact ⟨e, by rw [herr, Outcome.err_bind]⟩

theorem encodeDomainName_ok_iff {w : Bytes} :
    encodeDomainName name = .ok w ↔
      LabelsOk (textLabels name) ∧ w = wireName (lowerAll (textLabels name)) := by
  obtain ⟨hok, herr⟩ := encodeDomainName_eq name
  constructor
  · intro h
    by_cases hlabels : LabelsOk (textLabels name)
    · rw [hok hlabels] at h
      cases h
      exact ⟨hlabels, rfl⟩
    · obtain ⟨e, he⟩ := herr hlabels
      rw [he] at h
      cases h
  · rintro ⟨hlabels, rfl⟩
    exact hok hlabels

theorem not_mem_textLabels {label : Bytes} (h : label ∈ textLabels name) : 46 ∉ label := by
  unfold textLabels at h
  split at h
  · cases h
  · exact not_mem_splitOn h

/-- Parts without dots are what their join is cut into. -/
theorem textLabels_intercalate (hne : labels ≠ [])
    (hlabels : ∀ label ∈ labels, label ≠ [] ∧ 46 ∉ label) :
    textLabels ([46].intercalate labels) = labels := by
  obtain ⟨init, last, rfl⟩ : ∃ init last, labels = init ++ [last] :=
    ⟨_, _, (List.dropLast_append_getLast hne).symm⟩
  obtain ⟨hlast, hnodot⟩ := hlabels last (by simp)
  have hend : ([46].intercalate (init ++ [last])).getLast? = some (last.getLast hlast) := by
    rw [getLast?_intercalate hlast, List.getLast?_eq_some_getLast hlast]
  have htrim : trimEndDots ([46].intercalate (init ++ [last])) =
      [46].intercalate (init ++ [last]) := by
    obtain ⟨start, hstart⟩ := List.getLast?_eq_some_iff.mp hend
    rw [hstart]
    refine List.rdropWhile_concat_neg _ _ _ fun hdot => hnodot ?_
    rw [← eq_of_beq hdot]
    exact List.getLast_mem hlast
  have htext : [46].intercalate (init ++ [last]) ≠ [] := by
    intro hnil
    rw [hnil] at hend
    cases hend
  rw [textLabels, htrim, if_neg htext]
  exact List.splitOn_intercalate 46 (fun label hl => (hlabels label hl).2) hne

/-- Case does not move the dots. -/
theorem textLabels_map_asciiLower (text : Bytes) :
    textLabels (text.map asciiLower) = lowerAll (textLabels text) := by
  have hdot : ∀ x, asciiLower x = 46 ↔ x = 46 := fun x => asciiLower_eq_iff (by decide)
  have htrim : trimEndDots (text.map asciiLower) = (trimEndDots text).map asciiLower := by
    have hpred : ((· == 46) ∘ asciiLower) = fun x : UInt8 => x == 46 := by
      funext x
      simp [hdot]
    rw [trimEndDots, trimEndDots, List.rdropWhile, List.rdropWhile, ← List.map_reverse,
      List.dropWhile_map, hpred, List.map_reverse]
  unfold textLabels
  rw [htrim]
  by_cases hroot : trimEndDots text = []
  · simp [hroot, lowerAll]
  · rw [if_neg hroot, if_neg (by simpa using hroot), splitOn_map hdot]
    rfl

end FromText

/-! ### Names their text gives back -/

section Safe

variable {labels : List Bytes}

theorem lowerAll_lowerAll (labels : List Bytes) : lowerAll (lowerAll labels) = lowerAll labels := by
  simp only [lowerAll, List.map_map]
  refine List.map_congr_left fun label _ => ?_
  simp [Function.comp_def, asciiLower_asciiLower]

/-- The text of a name without dots is cut into the labels it was made of. -/
theorem textLabels_labelsToString (h : LabelsOk labels) (hdots : ∀ label ∈ labels, 46 ∉ label) :
    textLabels (labelsToString (wireName labels)) = labels.filter validUtf8 := by
  rw [labelsToString_wireName h]
  by_cases hnone : labels.filter validUtf8 = []
  · rw [if_pos hnone, hnone]
    rfl
  · rw [if_neg hnone]
    apply textLabels_intercalate hnone
    intro label hl
    have hmem := List.mem_of_mem_filter hl
    exact ⟨(h label hmem).1, hdots label hmem⟩

/-- The text form gives the name back, up to case. -/
def TextIdentifies (w : Bytes) : Prop :=
  ∃ w', encodeDomainName (labelsToString w) = .ok w' ∧ w'.map asciiLower = w.map asciiLower

theorem textIdentifies_wireName (h : LabelsOk labels) :
    TextIdentifies (wireName labels) ↔
      lowerAll (textLabels (labelsToString (wireName labels))) = lowerAll labels := by
  constructor
  · rintro ⟨w', hw', hsame⟩
    obtain ⟨htext, rfl⟩ := encodeDomainName_ok_iff.mp hw'
    rw [map_asciiLower_wireName htext.lowerAll, map_asciiLower_wireName h, lowerAll_lowerAll] at hsame
    exact wireName_inj htext.lowerAll h.lowerAll hsame
  · intro hsame
    have htext : LabelsOk (textLabels (labelsToString (wireName labels))) := by
      intro label hl
      have hlower : label.map asciiLower ∈ lowerAll labels := by
        rw [← hsame]
        exact List.mem_map_of_mem hl
      have hok := h.lowerAll _ hlower
      exact ⟨by simpa using hok.1, by simpa using hok.2⟩
    refine ⟨_, encodeDomainName_ok_iff.mpr ⟨htext, rfl⟩, ?_⟩
    rw [map_asciiLower_wireName htext.lowerAll, map_asciiLower_wireName h, lowerAll_lowerAll, hsame]

/-- **The text form gives a name back exactly when every label is text without
a dot.** -/
theorem textIdentifies_iff {w : Bytes} (hw : WireName w) : TextIdentifies w ↔ TextSafe w := by
  obtain ⟨labels, h, rfl⟩ := hw
  rw [textIdentifies_wireName h, TextSafe, rawLabels_wireName h]
  constructor
  · intro hsame
    have hdots : ∀ label ∈ labels, 46 ∉ label := by
      intro label hl hdot
      have hlower : label.map asciiLower ∈ lowerAll labels := List.mem_map_of_mem hl
      rw [← hsame] at hlower
      obtain ⟨part, hpart, heq⟩ := List.mem_map.mp hlower
      rw [← dot_mem_map_asciiLower, ← heq, dot_mem_map_asciiLower] at hdot
      exact not_mem_textLabels hpart hdot
    rw [textLabels_labelsToString h hdots] at hsame
    have hall : labels.filter validUtf8 = labels := by
      apply List.filter_sublist.eq_of_length
      simpa [lowerAll] using congrArg List.length hsame
    exact fun label hl => ⟨List.filter_eq_self.mp hall label hl, hdots label hl⟩
  · intro hsafe
    rw [textLabels_labelsToString h fun label hl => (hsafe label hl).2,
      List.filter_eq_self.mpr fun label hl => (hsafe label hl).1]

end Safe

/-! ### What `domain_names_equal` compares -/

section LetterCase

theorem labelBytesEqual_eq_some {n : Nat} {a b a' b' : Bytes}
    (h : labelBytesEqual n a b = some (a', b')) :
    n ≤ a.length ∧ n ≤ b.length ∧ (a.take n).map asciiLower = (b.take n).map asciiLower ∧
      a' = a.drop n ∧ b' = b.drop n := by
  induction n generalizing a b with
  | zero =>
      cases h
      exact ⟨Nat.zero_le _, Nat.zero_le _, rfl, rfl, rfl⟩
  | succ n ih =>
      cases a with
      | nil => cases h
      | cons x a =>
          cases b with
          | nil => cases h
          | cons y b =>
              rw [labelBytesEqual] at h
              split at h
              · rename_i hxy
                obtain ⟨hla, hlb, htake, rfl, rfl⟩ := ih h
                refine ⟨Nat.succ_le_succ hla, Nat.succ_le_succ hlb, ?_, rfl, rfl⟩
                rw [List.take_succ_cons, List.take_succ_cons, List.map_cons, List.map_cons, htake,
                  eq_of_beq hxy]
              · cases h

theorem labelParts_nil (fuel : Nat) : labelParts fuel [] = [] := by
  cases fuel <;> rfl

/-- Names that are equal up to case have the same parts up to case. -/
theorem labelParts_congr {fuel : Nat} {a b : Bytes} (h : domainNamesEqualLoop fuel a b = true)
    {f g : Nat} (hf : a.length ≤ f) (hg : b.length ≤ g) :
    lowerAll (labelParts f a) = lowerAll (labelParts g b) := by
  induction fuel generalizing a b f g with
  | zero => cases h
  | succ fuel ih =>
      cases a with
      | nil =>
          cases b with
          | nil => rw [labelParts_nil, labelParts_nil]
          | cons lb b => cases h
      | cons la a =>
          cases b with
          | nil => cases h
          | cons lb b =>
              obtain ⟨f, rfl⟩ := Nat.exists_eq_add_of_le' (Nat.le_trans (Nat.succ_pos _) hf)
              obtain ⟨g, rfl⟩ := Nat.exists_eq_add_of_le' (Nat.le_trans (Nat.succ_pos _) hg)
              rw [List.length_cons] at hf hg
              unfold domainNamesEqualLoop at h
              by_cases hlen : la = lb
              · subst hlen
                rw [if_neg (by simp)] at h
                unfold labelParts
                by_cases hzero : la = 0
                · rw [if_pos hzero, if_pos hzero]
                rw [if_neg hzero] at h
                rw [if_neg hzero, if_neg hzero]
                split at h
                · cases h
                rename_i a' b' heq
                obtain ⟨hla, hlb, htake, rfl, rfl⟩ := labelBytesEqual_eq_some heq
                rw [if_neg (Nat.not_lt.mpr hla), if_neg (Nat.not_lt.mpr hlb)]
                have hrest := ih h (f := f) (g := g)
                  (by rw [List.length_drop]; omega) (by rw [List.length_drop]; omega)
                have hvalid : validUtf8 (a.take la.toNat) = validUtf8 (b.take la.toNat) := by
                  rw [← validUtf8_map_asciiLower, htake, validUtf8_map_asciiLower]
                dsimp only
                rw [hvalid]
                split
                · rw [lowerAll_cons, lowerAll_cons, htake, hrest]
                · exact hrest
              · rw [if_pos hlen] at h
                cases h

theorem map_asciiLower_labelsToString (name : Bytes) :
    (labelsToString name).map asciiLower =
      if lowerAll (labelParts name.length name) = [] then [46]
      else [46].intercalate (lowerAll (labelParts name.length name)) := by
  rw [labelsToString]
  by_cases hnone : labelParts name.length name = []
  · rw [hnone]
    rfl
  · rw [if_neg (by simpa using hnone), if_neg (by simpa [lowerAll] using hnone), map_intercalate]
    rfl

/-- Two spellings of a name have one text, up to case. -/
theorem labelsToString_congr {a b : Bytes} (h : domainNamesEqual a b = true) :
    (labelsToString a).map asciiLower = (labelsToString b).map asciiLower := by
  rw [map_asciiLower_labelsToString, map_asciiLower_labelsToString,
    labelParts_congr h (Nat.le_refl _) (Nat.le_refl _)]

theorem labelBytesEqual_append (x y a b : Bytes) (hlen : x.length = y.length) :
    labelBytesEqual x.length (x ++ a) (y ++ b) =
      if x.map asciiLower = y.map asciiLower then some (a, b) else none := by
  induction x generalizing y with
  | nil =>
      obtain rfl := List.length_eq_zero_iff.mp hlen.symm
      rfl
  | cons x₀ x ih =>
      cases y with
      | nil => cases hlen
      | cons y₀ y =>
          have hrest := ih y (Nat.succ.inj hlen)
          simp only [List.length_cons, List.cons_append, labelBytesEqual, hrest, List.map_cons,
            List.cons.injEq, eqIgnoreAsciiCase, beq_iff_eq]
          by_cases hhead : asciiLower x₀ = asciiLower y₀
          · simp [hhead]
          · simp [hhead]

/-- Two names are equal exactly when their labels are, up to case. -/
theorem domainNamesEqual_wireName {as bs : List Bytes} (ha : LabelsOk as) (hb : LabelsOk bs) :
    domainNamesEqual (wireName as) (wireName bs) = true ↔
      lowerAll as = lowerAll bs := by
  suffices hloop : ∀ fuel, LabelWalk fuel as →
      (domainNamesEqualLoop fuel (wireName as) (wireName bs) = true ↔
        lowerAll as = lowerAll bs) by
    exact hloop _ (ha.walk (length_lt_wireName.trans (Nat.lt_succ_self _)))
  intro fuel hwalk
  induction hwalk generalizing bs with
  | root fuel =>
      cases bs with
      | nil => simp [wireName, domainNamesEqualLoop]
      | cons b bs => simp [wireName, domainNamesEqualLoop, hb.length_ne_zero.symm]
  | @label fuel a as ha _ ih =>
      cases bs with
      | nil => simp [wireName, domainNamesEqualLoop, ha.length_ne_zero]
      | cons b bs =>
          have hrest := ih ha.tail hb.tail
          rw [lowerAll_cons, lowerAll_cons, List.cons.injEq]
          by_cases hlen : a.length = b.length
          · have hbyte : UInt8.ofNat a.length = UInt8.ofNat b.length := by rw [hlen]
            have hcompare := labelBytesEqual_append a b (wireName as) (wireName bs) hlen
            simp only [wireName, List.cons_append, domainNamesEqualLoop, hbyte, ne_eq,
              not_true_eq_false, if_false, hb.length_ne_zero, hb.toNat_length, ← hlen, hcompare]
            by_cases hlabel : a.map asciiLower = b.map asciiLower
            · simp [hlabel, hrest]
            · simp [hlabel]
          · have hbyte : UInt8.ofNat a.length ≠ UInt8.ofNat b.length := by
              intro heq
              have hnat := congrArg UInt8.toNat heq
              rw [ha.toNat_length, hb.toNat_length] at hnat
              exact hlen hnat
            have hlabel : a.map asciiLower ≠ b.map asciiLower := by
              intro heq
              exact hlen (by simpa using congrArg List.length heq)
            simp [wireName, domainNamesEqualLoop, hbyte, hlabel]

/-- Two names are equal exactly when their bytes are, up to case. -/
theorem domainNamesEqual_iff {a b : Bytes} (ha : WireName a) (hb : WireName b) :
    domainNamesEqual a b = true ↔ a.map asciiLower = b.map asciiLower := by
  obtain ⟨as, has, rfl⟩ := ha
  obtain ⟨bs, hbs, rfl⟩ := hb
  rw [domainNamesEqual_wireName has hbs, map_asciiLower_wireName has, map_asciiLower_wireName hbs]
  exact ⟨congrArg wireName, wireName_inj has.lowerAll hbs.lowerAll⟩

/-- Two spellings of one name have one length. -/
theorem length_eq_of_domainNamesEqual {a b : Bytes} (ha : WireName a) (hb : WireName b)
    (hab : domainNamesEqual a b = true) : a.length = b.length := by
  simpa using congrArg List.length ((domainNamesEqual_iff ha hb).mp hab)

end LetterCase

end FastDns.Dns
