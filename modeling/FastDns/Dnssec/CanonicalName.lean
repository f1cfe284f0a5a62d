/-
Names in canonical form (`name_to_wire`, `src/dnssec/mod.rs`), and the text
through which every name gets there.

The servers resolve the text of a question, and the validator signs
`name_to_wire(labels_to_string(name))`. `name_to_wire` is `encode_domain_name`
with the empty string in the place of an error (`nameToWire_of_labelsOk`), so
all of them see a name as its text has it.

* **`text_form_identifies_iff`.** A decoded name comes back from its text exactly
  if its labels are text without dots, and no two such names are confused.
* **`encodeDomainName_canonical`.** What the encoder makes of a string is the one
  wire name the string spells, in lower case.
-/

import FastDns.Dns.TextForm
import FastDns.Dnssec.Validate

namespace FastDns.Dnssec

open FastDns.Lib FastDns.Dns

/-! ### `name_to_wire` -/

section Canonical

variable {labels : List Bytes} {text text' : Bytes}

theorem lowerLabels_wireName {fuel : Nat} (h : LabelWalk fuel labels) :
    lowerLabels fuel (wireName labels) = wireName (lowerAll labels) := by
  induction h with
  | root fuel => rfl
  | label h _ ih =>
      rw [wireName_lowerAll_cons]
      simp only [wireName, List.cons_append, lowerLabels, if_neg h.length_ne_zero, h.toNat_length,
        List.take_left, List.drop_left, ih]

/-- The second lower-casing changes nothing. -/
theorem nameToWire_of_labelsOk (h : LabelsOk (textLabels text)) :
    nameToWire text = wireName (lowerAll (textLabels text)) := by
  rw [nameToWire, (encodeDomainName_eq text).1 h]
  exact (lowerLabels_wireName h.lowerAll.walk_wireName).trans (by rw [lowerAll_lowerAll])

theorem nameToWire_of_not_labelsOk (h : ¬ LabelsOk (textLabels text)) : nameToWire text = [] := by
  obtain ⟨e, he⟩ := (encodeDomainName_eq text).2 h
  rw [nameToWire, he]
  rfl

/-- The labels of a text and of its lower case can be encoded together. -/
theorem labelsOk_lowerAll_iff : LabelsOk (lowerAll labels) ↔ LabelsOk labels := by
  constructor
  · intro h label hl
    have hlower := h _ (List.mem_map_of_mem hl)
    exact ⟨by simpa using hlower.1, by simpa using hlower.2⟩
  · exact LabelsOk.lowerAll

/-- `name_to_wire` does not tell the case of its argument. -/
theorem nameToWire_map_asciiLower (text : Bytes) :
    nameToWire (text.map asciiLower) = nameToWire text := by
  by_cases h : LabelsOk (textLabels text)
  · have hlower : LabelsOk (textLabels (text.map asciiLower)) := by
      rw [textLabels_map_asciiLower]
      exact h.lowerAll
    rw [nameToWire_of_labelsOk h, nameToWire_of_labelsOk hlower, textLabels_map_asciiLower,
      lowerAll_lowerAll]
  · have hlower : ¬ LabelsOk (textLabels (text.map asciiLower)) := by
      rwa [textLabels_map_asciiLower, labelsOk_lowerAll_iff]
    rw [nameToWire_of_not_labelsOk h, nameToWire_of_not_labelsOk hlower]

/-- **Two spellings of a name have one canonical form.** -/
theorem canonicalName_congr {a b : Bytes} (h : domainNamesEqual a b = true) :
    canonicalName a = canonicalName b := by
  rw [canonicalName, canonicalName, ← nameToWire_map_asciiLower (labelsToString a),
    labelsToString_congr h, nameToWire_map_asciiLower]

/-- The canonical form is a name, or nothing at all. -/
theorem canonicalName_cases (name : Bytes) :
    canonicalName name = [] ∨
      ∃ labels, LabelsOk labels ∧ canonicalName name = wireName labels := by
  by_cases h : LabelsOk (textLabels (labelsToString name))
  · exact .inr ⟨_, h.lowerAll, nameToWire_of_labelsOk h⟩
  · exact .inl (nameToWire_of_not_labelsOk h)

/-- **The canonical form of a name is its lower case exactly if its text gives
it back.** -/
theorem canonicalName_eq_iff {w : Bytes} (hw : WireName w) :
    canonicalName w = w.map asciiLower ↔ TextSafe w := by
  rw [← textIdentifies_iff hw]
  obtain ⟨labels, h, rfl⟩ := hw
  rw [textIdentifies_wireName h, map_asciiLower_wireName h]
  by_cases htext : LabelsOk (textLabels (labelsToString (wireName labels)))
  · rw [canonicalName, nameToWire_of_labelsOk htext]
    exact ⟨wireName_inj htext.lowerAll h.lowerAll, congrArg wireName⟩
  · rw [canonicalName, nameToWire_of_not_labelsOk htext]
    constructor
    · intro hnil
      have hlen : (lowerAll labels).length < (wireName (lowerAll labels)).length :=
        length_lt_wireName
      rw [← hnil] at hlen
      exact absurd hlen (Nat.not_lt_zero _)
    · intro hsame
      exact absurd (labelsOk_lowerAll_iff.mp (hsame ▸ h.lowerAll)) htext

end Canonical

/-! ### What the text of a name says -/

/-- **A decoded name comes back from its text exactly when every label is text
without a dot**, and then no other such name has the same text or is signed as
the same name, up to case. -/
theorem text_form_identifies_iff (data : Bytes) (offset : Nat) (w : Bytes) (next : Nat)
    (h : decodeDomainName data offset = .ok (w, next)) :
    (TextIdentifies w ↔ TextSafe w) ∧
      ∀ data' offset' w' next', decodeDomainName data' offset' = .ok (w', next') →
        TextSafe w → TextSafe w' →
        labelsToString w = labelsToString w' ∨ canonicalName w = canonicalName w' →
        w.map asciiLower = w'.map asciiLower := by
  have hw := (decodeDomainName_eq_ok.mp h).wireName
  constructor
  · exact textIdentifies_iff hw
  · intro data' offset' w' next' h' hsafe hsafe' hsame
    have hw' := (decodeDomainName_eq_ok.mp h').wireName
    have hcanonical : canonicalName w = canonicalName w' := by
      rcases hsame with htext | hcanonical
      · rw [canonicalName, canonicalName, htext]
      · exact hcanonical
    rwa [(canonicalName_eq_iff hw).mpr hsafe, (canonicalName_eq_iff hw').mpr hsafe'] at hcanonical

/-- The name `a.b` of two labels comes back from its text. -/
theorem text_form_identifies_twoLabels :
    decodeDomainName [1, 0x61, 1, 0x62, 0] 0 = .ok ([1, 0x61, 1, 0x62, 0], 5) ∧
      TextIdentifies [1, 0x61, 1, 0x62, 0] := by
  have hread : decodeDomainName [1, 0x61, 1, 0x62, 0] 0 = .ok ([1, 0x61, 1, 0x62, 0], 5) := rfl
  exact ⟨hread, (text_form_identifies_iff _ _ _ _ hread).1.mpr (by decide)⟩

/-- The name of the single label `a.b` is taken for the name `a.b` of two labels,
and a label that is not UTF-8 is taken for none at all. -/
theorem text_form_confuses :
    decodeDomainName [3, 0x61, 46, 0x62, 0] 0 = .ok ([3, 0x61, 46, 0x62, 0], 5) ∧
      labelsToString [3, 0x61, 46, 0x62, 0] = labelsToString [1, 0x61, 1, 0x62, 0] ∧
      canonicalName [3, 0x61, 46, 0x62, 0] = canonicalName [1, 0x61, 1, 0x62, 0] ∧
      ¬ TextIdentifies [3, 0x61, 46, 0x62, 0] ∧
      decodeDomainName [1, 0xFF, 0] 0 = .ok ([1, 0xFF, 0], 3) ∧
      labelsToString [1, 0xFF, 0] = labelsToString [0] ∧ ¬ TextIdentifies [1, 0xFF, 0] := by
  have hdot : WireName [3, 0x61, 46, 0x62, 0] := ⟨[[0x61, 46, 0x62]], by simp [LabelsOk], rfl⟩
  have hbyte : WireName [1, 0xFF, 0] := ⟨[[0xFF]], by simp [LabelsOk], rfl⟩
  rw [textIdentifies_iff hdot, textIdentifies_iff hbyte]
  exact ⟨rfl, by decide, by decide, by decide, rfl, by decide, by decide⟩

/-! ### What the encoder makes of a text -/

/-- After the dots at its end are gone, something is left that has a label which
is empty or too long. -/
def Malformed (text : Bytes) : Prop :=
  trimEndDots text ≠ [] ∧ ∃ label ∈ (trimEndDots text).splitOn 46, label = [] ∨ 63 < label.length

section Encoder

variable {text : Bytes}

theorem malformed_iff : Malformed text ↔ ¬ LabelsOk (textLabels text) := by
  unfold Malformed textLabels
  by_cases hroot : trimEndDots text = []
  · rw [if_pos hroot]
    constructor
    · exact fun h => absurd hroot h.1
    · exact fun h => absurd labelsOk_nil h
  · rw [if_neg hroot, LabelsOk]
    simp only [ne_eq, hroot, not_false_eq_true, true_and, not_forall, exists_prop, not_and_or,
      not_not, Nat.not_le]

/-- The labels of a text are text, in lower case too. -/
theorem filter_validUtf8_lowerAll (htext : validUtf8 text = true) :
    (lowerAll (textLabels text)).filter validUtf8 = lowerAll (textLabels text) := by
  apply List.filter_eq_self.mpr
  intro label hl
  obtain ⟨part, hpart, rfl⟩ := List.mem_map.mp hl
  rw [validUtf8_map_asciiLower]
  unfold textLabels at hpart
  split at hpart
  · cases hpart
  · exact validUtf8_splitOn (by decide) (validUtf8_rdropWhile (by decide) htext) part hpart

/-- The labels in lower case, joined again. -/
theorem labelsToString_encoded (htext : validUtf8 text = true) (h : LabelsOk (textLabels text)) :
    labelsToString (wireName (lowerAll (textLabels text))) =
      if trimEndDots text = [] then [46] else (trimEndDots text).map asciiLower := by
  rw [labelsToString_wireName h.lowerAll, filter_validUtf8_lowerAll htext]
  by_cases hroot : trimEndDots text = []
  · rw [if_pos hroot, textLabels, if_pos hroot]
    rfl
  · have hjoin : [46].intercalate ((trimEndDots text).splitOn 46) = trimEndDots text :=
      List.intercalate_splitOn 46
    have hne : lowerAll ((trimEndDots text).splitOn 46) ≠ [] :=
      List.map_eq_nil_iff.not.mpr (List.splitOn_ne_nil 46 _)
    have hlower : (trimEndDots text).map asciiLower =
        [46].intercalate (lowerAll ((trimEndDots text).splitOn 46)) := by
      rw [← hjoin, map_intercalate, hjoin]
      rfl
    rw [if_neg hroot, textLabels, if_neg hroot, if_neg hne, hlower]

end Encoder

/-- **`encode_domain_name` is canonical**: it fails on the malformed strings only,
and what it returns otherwise is a name that decodes to itself, whose text is
the string in lower case, and which all encoders give back. -/
theorem encodeDomainName_canonical (s : Str) :
    ((∃ e, encodeDomainName s.bytes = .err e) ↔ Malformed s.bytes) ∧
      (¬ Malformed s.bytes → ∃ w, encodeDomainName s.bytes = .ok w ∧ WireName w ∧
        decodeDomainName w 0 = .ok (w, w.length) ∧
        labelsToString w =
          (if trimEndDots s.bytes = [] then [46] else (trimEndDots s.bytes).map asciiLower) ∧
        encodeDomainName (labelsToString w) = .ok w ∧ nameToWire s.bytes = w) := by
  rw [malformed_iff]
  obtain ⟨hok, herr⟩ := encodeDomainName_eq s.bytes
  constructor
  · constructor
    · rintro ⟨e, he⟩ hlabels
      rw [hok hlabels] at he
      cases he
    · exact herr
  · intro hlabels
    have hlabels := not_not.mp hlabels
    have htext := labelsToString_encoded s.valid hlabels
    have hname : WireName (wireName (lowerAll (textLabels s.bytes))) :=
      ⟨_, hlabels.lowerAll, rfl⟩
    have hdecode := decodeDomainName_of_standsAt hname (standsAt_self _)
    rw [Nat.zero_add] at hdecode
    refine ⟨_, hok hlabels, hname, hdecode, htext, ?_, nameToWire_of_labelsOk hlabels⟩
    -- The text is the string in lower case, without the dots at its end.
    have hagain : textLabels (labelsToString (wireName (lowerAll (textLabels s.bytes)))) =
        lowerAll (textLabels s.bytes) := by
      have hdots : ∀ label ∈ lowerAll (textLabels s.bytes), 46 ∉ label := by
        intro label hl
        obtain ⟨part, hpart, rfl⟩ := List.mem_map.mp hl
        rw [dot_mem_map_asciiLower]
        exact not_mem_textLabels hpart
      rw [textLabels_labelsToString hlabels.lowerAll hdots, filter_validUtf8_lowerAll s.valid]
    rw [encodeDomainName_ok_iff, hagain, lowerAll_lowerAll]
    exact ⟨hlabels.lowerAll, rfl⟩

end FastDns.Dnssec
