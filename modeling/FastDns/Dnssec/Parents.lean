/-
Parents of a zone: `parent_zone` and `parent_zone_str` (`src/dnssec/mod.rs`) and
`name_prefix` (`src/dns/types.rs`).

In wire form a parent is the name without its first label (`parentZone_wireName`), in
text it is what follows the first dot, and the root above a name of one label
(`parentZoneStr_intercalate`). Taking parents walks through the suffixes of the labels
and ends at the root (`iterate_parentZone`).
-/

import FastDns.Dns.TextForm
import FastDns.Dnssec.ChainOfTrust

namespace FastDns.Dnssec

open FastDns.Lib FastDns.Dns

section Wire

variable {label : Bytes} {labels : List Bytes}

theorem isRootZone_wireName : isRootZone (wireName labels) = true ↔ labels = [] := by
  rw [isRootZone, decide_eq_true_eq]
  cases labels with
  | nil => exact iff_of_true rfl rfl
  | cons label labels =>
      refine iff_of_false (fun h => ?_) (List.cons_ne_nil _ _)
      have hlength := congrArg List.length h
      have hrest : labels.length < (wireName labels).length := length_lt_wireName
      rw [wireName, List.length_append, List.length_cons, List.length_singleton] at hlength
      omega

/-- The root has no parent. -/
theorem parentZone_root : parentZone [0] = none := rfl

/-- The parent of a name has its labels but the first. -/
theorem parentZone_wireName (h : LabelsOk (label :: labels)) :
    parentZone (wireName (label :: labels)) = some (wireName labels) := by
  have hroot : ¬ isRootZone (wireName (label :: labels)) = true :=
    isRootZone_wireName.not.mpr (List.cons_ne_nil _ _)
  have hempty : (wireName labels).isEmpty = false := by
    cases labels <;> rfl
  unfold parentZone
  rw [if_neg hroot]
  simp only [wireName, List.cons_append, h.toNat_length, List.drop_left, hempty, Bool.false_or]
  split
  · rename_i hzero
    rw [eq_of_beq hzero]
  · rfl

/-- The walk over the parents of a name. -/
theorem iterate_parentZone (h : LabelsOk labels) {j : Nat} (hj : j ≤ labels.length) :
    (fun zone => zone.bind parentZone)^[j] (some (wireName labels)) =
      some (wireName (labels.drop j)) := by
  induction j generalizing labels with
  | zero => rfl
  | succ j ih =>
      cases labels with
      | nil => exact absurd hj (Nat.not_succ_le_zero j)
      | cons label labels =>
          rw [Function.iterate_succ_apply, Option.bind_some, parentZone_wireName h,
            List.drop_succ_cons]
          exact ih h.tail (Nat.le_of_succ_le_succ hj)

end Wire

section ToText

variable {label : Bytes} {labels : List Bytes}

theorem parentZoneStr_intercalate (hlabel : label ≠ []) (hdot : 46 ∉ label) :
    parentZoneStr ([46].intercalate (label :: labels)) =
      if labels = [] then [46] else [46].intercalate labels := by
  have hbytes : ∀ c ∈ label, (c != 46) = true := by
    intro c hc
    rw [bne_iff_ne]
    rintro rfl
    exact hdot hc
  cases labels with
  | nil =>
      have hroot : ¬ (label = [46] ∨ label = []) := by
        rintro (rfl | rfl)
        · exact hdot (List.mem_singleton_self 46)
        · exact hlabel rfl
      rw [List.intercalate_singleton, if_pos rfl, parentZoneStr, if_neg hroot,
        List.dropWhile_eq_nil_iff.mpr hbytes]
  | cons next labels =>
      rw [List.intercalate_cons_cons, if_neg (List.cons_ne_nil _ _), List.append_assoc,
        List.singleton_append]
      generalize List.intercalate [46] (next :: labels) = parent
      have hroot : ¬ (label ++ 46 :: parent = [46] ∨ label ++ 46 :: parent = []) := by
        rintro (hone | hnone)
        · rcases List.append_eq_singleton_iff.mp hone with ⟨hnil, _⟩ | ⟨_, hcons⟩
          · exact hlabel hnil
          · cases hcons
        · exact hlabel (List.append_eq_nil_iff.mp hnone).1
      rw [parentZoneStr, if_neg hroot, List.dropWhile_append_of_pos hbytes,
        List.dropWhile_cons_of_neg (by decide)]

theorem parentZoneStr_labelsToString (h : LabelsOk (label :: labels))
    (htext : ∀ l ∈ label :: labels, 46 ∉ l ∧ validUtf8 l = true) :
    labelsToString (wireName labels) =
      parentZoneStr (labelsToString (wireName (label :: labels))) := by
  have hall : ∀ ls : List Bytes, (∀ l ∈ ls, l ∈ label :: labels) → ls.filter validUtf8 = ls :=
    fun ls hls => List.filter_eq_self.mpr fun l hl => (htext l (hls l hl)).2
  rw [labelsToString_wireName h.tail, labelsToString_wireName h,
    hall labels fun l hl => List.mem_cons_of_mem _ hl, hall (label :: labels) fun l hl => hl,
    if_neg (List.cons_ne_nil _ _),
    parentZoneStr_intercalate (h label List.mem_cons_self).1 (htext label List.mem_cons_self).1]

end ToText

/-- **Suffixes and parents agree.** `name_prefix` keeps the last labels, as many as
asked for; `parent_zone` is the suffix with one label less, in text it is
`parent_zone_str`, and the root is as many parents away as there are labels. -/
theorem parents_agree {labels : List Bytes} (h : LabelsOk labels) :
    (∀ n, ∃ zone, namePrefix (wireName labels) n = .ok zone ∧
        zone = wireName (labels.drop (labels.length - n)) ∧ WireName zone ∧
        countLabels zone = min n labels.length) ∧
      (1 ≤ labels.length → ∃ parent, parentZone (wireName labels) = some parent ∧
        namePrefix (wireName labels) (labels.length - 1) = .ok parent ∧
        ((∀ l ∈ labels, 46 ∉ l ∧ validUtf8 l = true) →
          labelsToString parent = parentZoneStr (labelsToString (wireName labels)))) ∧
      (∀ j ≤ labels.length, ((fun zone => zone.bind parentZone)^[j] (some (wireName labels)) =
        some [0] ↔ j = labels.length)) ∧
      parentZone [0] = none := by
  have hdrop : ∀ j, LabelsOk (labels.drop j) := fun j l hl => h l (List.mem_of_mem_drop hl)
  refine ⟨fun n => ?_, fun hlabels => ?_, fun j hj => ?_, parentZone_root⟩
  · refine ⟨_, namePrefix_wireName h n, rfl, ⟨_, hdrop _, rfl⟩, ?_⟩
    rw [countLabels_wireName (hdrop _), List.length_drop]
    omega
  · obtain ⟨label, rest, rfl⟩ := List.exists_cons_of_length_pos hlabels
    refine ⟨wireName rest, parentZone_wireName h, ?_, parentZoneStr_labelsToString h⟩
    have hone : (label :: rest).length - ((label :: rest).length - 1) = 1 := by
      rw [List.length_cons]
      omega
    rw [namePrefix_wireName h, hone, List.drop_succ_cons, List.drop_zero]
  · rw [iterate_parentZone h hj, Option.some_inj]
    have hroot : isRootZone (wireName (labels.drop j)) = true ↔ labels.drop j = [] :=
      isRootZone_wireName
    rw [isRootZone, decide_eq_true_eq, List.drop_eq_nil_iff] at hroot
    rw [hroot]
    omega

/-- The parent of `www.com` is `com`. -/
theorem parents_agree_com :
    ∃ parent, parentZone (wireName [[119, 119, 119], [99, 111, 109]]) = some parent ∧
      labelsToString parent =
        parentZoneStr (labelsToString (wireName [[119, 119, 119], [99, 111, 109]])) := by
  have hlabels : LabelsOk [[119, 119, 119], [99, 111, 109]] := by
    unfold LabelsOk
    decide
  obtain ⟨parent, hparent, _, htext⟩ := (parents_agree hlabels).2.1 (by decide)
  exact ⟨parent, hparent, htext (by decide)⟩

end FastDns.Dnssec
