/-
Text as UTF-8 bytes, cut and joined at ASCII bytes.

No byte of a longer character is ASCII, so a separator is always a character of
its own (`validUtf8_append_cons`): the parts of a text are texts, and parts that
are texts make a text. Lower-casing ASCII letters byte by byte does not touch
the other characters (`validUtf8_map_asciiLower`).
-/

import FastDns.Lib.Bytes
import Mathlib.Data.List.DropRight

namespace FastDns.Lib

/-- A `&str`: bytes that are UTF-8. -/
structure Str where
  bytes : Bytes
  valid : validUtf8 bytes = true
deriving DecidableEq, Repr

/-! ### One character at a time -/

section Characters

variable {b0 b1 b2 : UInt8} {rest : Bytes}

theorem validUtf8_ascii (h : b0 < 0x80) : validUtf8 (b0 :: rest) = validUtf8 rest := by
  rw [validUtf8.eq_def]
  exact if_pos h

theorem validUtf8_two (h : ¬ b0 < 0x80) (h₂ : (0xC2 ≤ b0 && b0 ≤ 0xDF) = true) :
    validUtf8 (b0 :: b1 :: rest) = (isContinuation b1 && validUtf8 rest) := by
  rw [validUtf8.eq_def]
  exact (if_neg h).trans (if_pos h₂)

theorem validUtf8_three (h : ¬ b0 < 0x80) (h₂ : ¬ (0xC2 ≤ b0 && b0 ≤ 0xDF) = true)
    (h₃ : (0xE0 ≤ b0 && b0 ≤ 0xEF) = true) :
    validUtf8 (b0 :: b1 :: b2 :: rest) =
      (isSecondByte b0 b1 && isContinuation b2 && validUtf8 rest) := by
  rw [validUtf8.eq_def]
  exact (if_neg h).trans ((if_neg h₂).trans (if_pos h₃))

theorem validUtf8_four {b3 : UInt8} (h : ¬ b0 < 0x80) (h₂ : ¬ (0xC2 ≤ b0 && b0 ≤ 0xDF) = true)
    (h₃ : ¬ (0xE0 ≤ b0 && b0 ≤ 0xEF) = true) :
    validUtf8 (b0 :: b1 :: b2 :: b3 :: rest) =
      (0xF0 ≤ b0 && b0 ≤ 0xF4 && isSecondByte b0 b1 && isContinuation b2 && isContinuation b3 &&
        validUtf8 rest) := by
  rw [validUtf8.eq_def]
  exact (if_neg h).trans ((if_neg h₂).trans (if_neg h₃))

theorem isContinuation_ascii {b : UInt8} (h : b < 0x80) : isContinuation b = false := by
  simp [isContinuation, UInt8.not_le.mpr h]

theorem isSecondByte_ascii {b : UInt8} (h : b < 0x80) : isSecondByte b0 b = false := by
  have h80 : ¬ 0x80 ≤ b := UInt8.not_le.mpr h
  have h90 : ¬ 0x90 ≤ b := fun hle => h80 (UInt8.le_trans (by decide) hle)
  have hA0 : ¬ 0xA0 ≤ b := fun hle => h80 (UInt8.le_trans (by decide) hle)
  unfold isSecondByte
  split
  · simp [hA0]
  split
  · simp [h80]
  split
  · simp [h90]
  split
  · simp [h80]
  · exact isContinuation_ascii h

end Characters

/-- **An ASCII byte cuts a text in two**, and only into texts. -/
theorem validUtf8_append_cons {sep : UInt8} (hsep : sep < 0x80) (a b : Bytes) :
    validUtf8 (a ++ sep :: b) = (validUtf8 a && validUtf8 b) := by
  have hcont := isContinuation_ascii hsep
  have hsecond : ∀ b0, isSecondByte b0 sep = false := fun _ => isSecondByte_ascii hsep
  fun_induction validUtf8 a with
  | case1 => rw [List.nil_append, validUtf8_ascii hsep, Bool.true_and]
  | case2 b0 rest h ih => rw [List.cons_append, validUtf8_ascii h, ih]
  | case3 b0 h =>
      -- A lead byte needs a second byte.
      rw [validUtf8.eq_def]
      rcases b with _ | ⟨b1, _ | ⟨b2, rest⟩⟩ <;> simp [h, hcont, hsecond]
  | case4 b0 h b1 rest h₂ ih =>
      rw [List.cons_append, List.cons_append, validUtf8_two h h₂, ih, Bool.and_assoc]
  | case5 b0 h b1 h₂ =>
      rw [validUtf8.eq_def]
      rcases b with _ | ⟨b1, rest⟩ <;> simp [h, h₂, hcont]
  | case6 b0 h b1 h₂ b2 rest h₃ ih =>
      rw [List.cons_append, List.cons_append, List.cons_append, validUtf8_three h h₂ h₃, ih]
      simp only [Bool.and_assoc]
  | case7 b0 h b1 h₂ b2 h₃ =>
      change validUtf8 (b0 :: b1 :: b2 :: sep :: b) = _
      rw [validUtf8_four h h₂ h₃, hcont]
      simp
  | case8 b0 h b1 h₂ b2 h₃ b3 rest ih =>
      rw [List.cons_append, List.cons_append, List.cons_append, List.cons_append,
        validUtf8_four h h₂ h₃, ih]
      simp only [Bool.and_assoc]

/-! ### Letter case -/

section LowerCase

variable {b : UInt8}

theorem asciiLower_of_not_ascii (h : ¬ b < 0x80) : asciiLower b = b := by
  have h5A : ¬ b ≤ 0x5A := by
    rw [UInt8.lt_iff_toNat_lt] at h
    rw [UInt8.le_iff_toNat_le]
    exact fun hle => h (Nat.lt_of_le_of_lt hle (by decide))
  simp [asciiLower, h5A]

theorem toNat_asciiLower (b : UInt8) :
    (asciiLower b).toNat = if 65 ≤ b.toNat ∧ b.toNat ≤ 90 then b.toNat + 32 else b.toNat := by
  have hrange : (0x41 ≤ b && b ≤ 0x5A) = true ↔ 65 ≤ b.toNat ∧ b.toNat ≤ 90 := by
    simp only [Bool.and_eq_true, decide_eq_true_eq, UInt8.le_iff_toNat_le]
    rfl
  unfold asciiLower
  by_cases h : 65 ≤ b.toNat ∧ b.toNat ≤ 90
  · have hsum : (b + 0x20).toNat = (b.toNat + 32) % 256 := UInt8.toNat_add b 0x20
    rw [if_pos (hrange.mpr h), if_pos h, hsum]
    omega
  · rw [if_neg (hrange.not.mpr h), if_neg h]

theorem asciiLower_lt_iff : asciiLower b < 0x80 ↔ b < 0x80 := by
  have hnat : ∀ c : UInt8, c < 0x80 ↔ c.toNat < 128 := fun _ => Iff.rfl
  rw [hnat, hnat, toNat_asciiLower]
  split <;> omega

/-- A byte outside the letters is the lower case of itself only. -/
theorem asciiLower_eq_iff {c : UInt8} (hc : c < 0x41) : asciiLower b = c ↔ b = c := by
  have hnat : c.toNat < 65 := hc
  rw [← UInt8.toNat_inj, ← UInt8.toNat_inj, toNat_asciiLower]
  split <;> omega

theorem asciiLower_asciiLower (b : UInt8) : asciiLower (asciiLower b) = asciiLower b := by
  have hnotUpper : ¬ (65 ≤ (asciiLower b).toNat ∧ (asciiLower b).toNat ≤ 90) := by
    rw [toNat_asciiLower]
    split <;> omega
  apply UInt8.toNat_inj.mp
  rw [toNat_asciiLower (asciiLower b), if_neg hnotUpper]

theorem isContinuation_asciiLower : isContinuation (asciiLower b) = isContinuation b := by
  by_cases h : b < 0x80
  · rw [isContinuation_ascii h, isContinuation_ascii (asciiLower_lt_iff.mpr h)]
  · rw [asciiLower_of_not_ascii h]

theorem isSecondByte_asciiLower {b0 : UInt8} :
    isSecondByte b0 (asciiLower b) = isSecondByte b0 b := by
  by_cases h : b < 0x80
  · rw [isSecondByte_ascii h, isSecondByte_ascii (asciiLower_lt_iff.mpr h)]
  · rw [asciiLower_of_not_ascii h]

/-- Text stays text in lower case, and nothing becomes text by it. -/
theorem validUtf8_map_asciiLower (a : Bytes) : validUtf8 (a.map asciiLower) = validUtf8 a := by
  fun_induction validUtf8 a with
  | case1 => rfl
  | case2 b0 rest h ih => rw [List.map_cons, validUtf8_ascii (asciiLower_lt_iff.mpr h), ih]
  | case3 b0 h =>
      rw [List.map_singleton, asciiLower_of_not_ascii h, validUtf8.eq_def]
      exact if_neg h
  | case4 b0 h b1 rest h₂ ih =>
      rw [List.map_cons, List.map_cons, asciiLower_of_not_ascii h, validUtf8_two h h₂, ih,
        isContinuation_asciiLower]
  | case5 b0 h b1 h₂ =>
      rw [List.map_cons, List.map_singleton, asciiLower_of_not_ascii h, validUtf8.eq_def]
      exact (if_neg h).trans (if_neg h₂)
  | case6 b0 h b1 h₂ b2 rest h₃ ih =>
      rw [List.map_cons, List.map_cons, List.map_cons, asciiLower_of_not_ascii h,
        validUtf8_three h h₂ h₃, ih, isContinuation_asciiLower, isSecondByte_asciiLower]
  | case7 b0 h b1 h₂ b2 h₃ =>
      rw [List.map_cons, List.map_cons, List.map_singleton, asciiLower_of_not_ascii h,
        validUtf8.eq_def]
      exact (if_neg h).trans ((if_neg h₂).trans (if_neg h₃))
  | case8 b0 h b1 h₂ b2 h₃ b3 rest ih =>
      rw [List.map_cons, List.map_cons, List.map_cons, List.map_cons, asciiLower_of_not_ascii h,
        validUtf8_four h h₂ h₃, ih, isContinuation_asciiLower, isContinuation_asciiLower,
        isSecondByte_asciiLower]

end LowerCase

/-! ### Separators -/

section Separators

variable {sep : UInt8} {text : Bytes} {parts : List Bytes}

theorem validUtf8_intercalate (hsep : sep < 0x80) (hparts : parts ≠ []) :
    validUtf8 ([sep].intercalate parts) = parts.all validUtf8 := by
  induction parts with
  | nil => exact absurd rfl hparts
  | cons part parts ih =>
      cases parts with
      | nil => simp
      | cons next parts =>
          rw [List.intercalate_cons_cons, List.append_assoc, List.singleton_append,
            validUtf8_append_cons hsep, ih (List.cons_ne_nil _ _)]
          exact List.all_cons.symm

/-- The parts of a text are texts. -/
theorem validUtf8_splitOn (hsep : sep < 0x80) (htext : validUtf8 text = true) :
    ∀ part ∈ text.splitOn sep, validUtf8 part = true := by
  have hjoin : [sep].intercalate (text.splitOn sep) = text := List.intercalate_splitOn sep
  rw [← hjoin, validUtf8_intercalate hsep (List.splitOn_ne_nil sep text)] at htext
  exact List.all_eq_true.mp htext

theorem not_mem_splitOn {part : Bytes} (h : part ∈ text.splitOn sep) : sep ∉ part := by
  induction text generalizing part with
  | nil =>
      rw [List.splitOn_nil, List.mem_singleton] at h
      rw [h]
      exact List.not_mem_nil
  | cons x text ih =>
      rw [List.splitOn_cons_eq_if_modifyHead] at h
      split at h
      · rcases List.mem_cons.mp h with rfl | h
        · exact List.not_mem_nil
        · exact ih h
      · rename_i hx
        cases hsplit : text.splitOn sep with
        | nil => exact absurd hsplit (List.splitOn_ne_nil sep text)
        | cons first rest =>
            rw [hsplit, List.modifyHead_cons] at h
            rw [hsplit] at ih
            rcases List.mem_cons.mp h with rfl | h
            · rw [List.mem_cons, not_or]
              exact ⟨fun heq => hx (by simp [heq]), ih List.mem_cons_self⟩
            · exact ih (List.mem_cons_of_mem _ h)

theorem map_intercalate (f : UInt8 → UInt8) (parts : List Bytes) :
    ([sep].intercalate parts).map f = [f sep].intercalate (parts.map (List.map f)) := by
  induction parts with
  | nil => rfl
  | cons part parts ih =>
      cases parts with
      | nil => simp
      | cons next parts =>
          rw [List.intercalate_cons_cons, List.map_append, List.map_append, ih]
          exact List.intercalate_cons_cons.symm

theorem getLast?_intercalate {last : Bytes} (hlast : last ≠ []) :
    ([sep].intercalate (parts ++ [last])).getLast? = last.getLast? := by
  induction parts with
  | nil => simp
  | cons part parts ih =>
      have hne : [sep].intercalate (parts ++ [last]) ≠ [] := by
        intro hnil
        rw [hnil, List.getLast?_nil, eq_comm, List.getLast?_eq_none_iff] at ih
        exact hlast ih
      rw [List.cons_append, List.intercalate_cons_of_ne_nil (by simp),
        List.getLast?_append_of_ne_nil _ hne, ih]

/-- Splitting commutes with a map that keeps the separator to itself. -/
theorem splitOn_map {f : UInt8 → UInt8} (hf : ∀ x, f x = sep ↔ x = sep) (text : Bytes) :
    (text.map f).splitOn sep = (text.splitOn sep).map (List.map f) := by
  have hjoin : [sep].intercalate (text.splitOn sep) = text := List.intercalate_splitOn sep
  have hparts : ∀ part ∈ (text.splitOn sep).map (List.map f), sep ∉ part := by
    intro part hpart hmem
    obtain ⟨old, hold, rfl⟩ := List.mem_map.mp hpart
    obtain ⟨x, hx, hfx⟩ := List.mem_map.mp hmem
    exact not_mem_splitOn hold ((hf x).mp hfx ▸ hx)
  have hne : (text.splitOn sep).map (List.map f) ≠ [] :=
    List.map_eq_nil_iff.not.mpr (List.splitOn_ne_nil sep text)
  calc (text.map f).splitOn sep
      = (([sep].intercalate (text.splitOn sep)).map f).splitOn sep := by rw [hjoin]
    _ = ([f sep].intercalate ((text.splitOn sep).map (List.map f))).splitOn sep := by
        rw [map_intercalate]
    _ = (text.splitOn sep).map (List.map f) := by
        rw [(hf sep).mpr rfl, List.splitOn_intercalate sep hparts hne]

/-- Text stays text without the separators at its end. -/
theorem validUtf8_rdropWhile (hsep : sep < 0x80) (htext : validUtf8 text = true) :
    validUtf8 (text.rdropWhile (· == sep)) = true := by
  induction text using List.reverseRecOn with
  | nil => exact htext
  | append_singleton text x ih =>
      by_cases hx : x = sep
      · rw [hx, validUtf8_append_cons hsep, Bool.and_eq_true] at htext
        rw [List.rdropWhile_concat_pos _ _ _ (by simpa using hx)]
        exact ih htext.1
      · rw [List.rdropWhile_concat_neg _ _ _ (by simpa using hx)]
        exact htext

end Separators

end FastDns.Lib
