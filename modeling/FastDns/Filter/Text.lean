/-
What `trim` does to a text, and what stands at the ends of one.

`Trimmed` says that neither end is whitespace; `trim` gives such a text and keeps
one as it is. The first sections hold of any list.
-/

import FastDns.Filter.Parse
import Mathlib.Data.List.TakeWhile

namespace FastDns.Filter

/-! ### Ends of lists -/

section Ends

variable {α : Type} {p : α → Bool} {a b l : List α}

theorem rdropWhile_append_of_pos (h : ∀ x ∈ b, p x = true) :
    (a ++ b).rdropWhile p = a.rdropWhile p := by
  rw [List.rdropWhile, List.reverse_append, List.dropWhile_append_of_pos (by simpa using h),
    List.rdropWhile]

theorem rdropWhile_append_of_neg (h : b.rdropWhile p ≠ []) :
    (a ++ b).rdropWhile p = a ++ b.rdropWhile p := by
  have hne : List.dropWhile p b.reverse ≠ [] := by simpa [List.rdropWhile] using h
  rw [List.rdropWhile, List.reverse_append, List.dropWhile_append,
    if_neg (by simpa using hne), List.reverse_append, List.reverse_reverse, List.rdropWhile]

theorem dropWhile_eq_self_iff_head? : l.dropWhile p = l ↔ ∀ x ∈ l.head?, p x = false := by
  cases l with
  | nil => simp
  | cons x l =>
      rw [List.dropWhile_cons, List.head?_cons]
      cases hx : p x with
      | false => simp [hx]
      | true =>
          refine iff_of_false (fun h => ?_) (by simp [hx])
          have hlength := congrArg List.length (if_pos rfl ▸ h)
          have hle := List.length_dropWhile_le p l
          rw [List.length_cons] at hlength
          omega

theorem rdropWhile_eq_self_iff_getLast? : l.rdropWhile p = l ↔ ∀ x ∈ l.getLast?, p x = false := by
  rw [List.rdropWhile, List.reverse_eq_iff, dropWhile_eq_self_iff_head?, List.head?_reverse]

theorem head?_dropWhile_neg (l : List α) : ∀ x ∈ (l.dropWhile p).head?, p x = false := by
  intro x hx
  have h := List.head?_dropWhile_not p l
  rw [Option.mem_def.mp hx] at h
  exact h

theorem getLast?_rdropWhile_neg (l : List α) : ∀ x ∈ (l.rdropWhile p).getLast?, p x = false := by
  rw [List.rdropWhile, List.getLast?_reverse]
  exact head?_dropWhile_neg l.reverse

/-- The start of a list stays its start when its end is cut. -/
theorem head?_of_isPrefix (h : a <+: l) : ∀ x ∈ a.head?, x ∈ l.head? := by
  obtain ⟨rest, rfl⟩ := h
  cases a with
  | nil => simp
  | cons y a => simp

end Ends

/-! ### Trimming -/

/-- Neither end of the text is whitespace. -/
structure Trimmed (s : Text) : Prop where
  head : ∀ c ∈ s.head?, isWhitespace c = false
  last : ∀ c ∈ s.getLast?, isWhitespace c = false

section Trim

variable {s a b : Text} {c : Char}

theorem trimmed_trim (s : Text) : Trimmed (trim s) where
  head c hc := by
    have hhead := head?_of_isPrefix (List.rdropWhile_prefix isWhitespace _) c hc
    exact head?_dropWhile_neg s c hhead
  last := getLast?_rdropWhile_neg _

/-- A text between blanks. -/
theorem trim_between (ha : ∀ c ∈ a, isWhitespace c = true) (hb : ∀ c ∈ b, isWhitespace c = true)
    (h : Trimmed s) : trim (a ++ (s ++ b)) = s := by
  rw [trim, List.dropWhile_append_of_pos ha]
  by_cases hs : s = []
  · subst hs
    rw [List.nil_append, List.dropWhile_eq_nil_iff.mpr hb, List.rdropWhile_nil]
  · have hhead : (s ++ b).dropWhile isWhitespace = s ++ b := by
      rw [dropWhile_eq_self_iff_head?, List.head?_append_of_ne_nil _ hs]
      exact h.head
    rw [hhead, rdropWhile_append_of_pos hb, rdropWhile_eq_self_iff_getLast?.mpr h.last]

theorem Trimmed.trim_eq (h : Trimmed s) : trim s = s := by
  have hbetween := trim_between (a := []) (b := []) nofun nofun h
  rwa [List.nil_append, List.append_nil] at hbetween

theorem trim_eq_self_iff : trim s = s ↔ Trimmed s :=
  ⟨fun h => h ▸ trimmed_trim s, Trimmed.trim_eq⟩

/-- A start that is no whitespace. -/
theorem Trimmed.append_left (h : Trimmed s) (hs : s ≠ [])
    (ha : ∀ c ∈ a.head?, isWhitespace c = false) : Trimmed (a ++ s) where
  head c hc := by
    cases a with
    | nil => exact h.head c hc
    | cons x a => exact ha c hc
  last c hc := by
    rw [List.getLast?_append_of_ne_nil _ hs] at hc
    exact h.last c hc

theorem trim_sublist (s : Text) : (trim s).Sublist s :=
  (List.rdropWhile_prefix isWhitespace _).sublist.trans (List.dropWhile_suffix _).sublist

theorem length_trim_le (s : Text) : (trim s).length ≤ s.length := (trim_sublist s).length_le

/-- What is no whitespace is not trimmed away. -/
theorem mem_trim_iff (hc : isWhitespace c = false) : c ∈ trim s ↔ c ∈ s := by
  have hdrop : ∀ l : Text, c ∈ l.dropWhile isWhitespace ↔ c ∈ l := by
    intro l
    induction l with
    | nil => rfl
    | cons x l ih =>
        rw [List.dropWhile_cons]
        split
        · rename_i hx
          have hne : c ≠ x := by
            rintro rfl
            rw [hc] at hx
            cases hx
          rw [ih, List.mem_cons, or_iff_right hne]
        · rfl
  rw [trim, List.rdropWhile, List.mem_reverse, hdrop, List.mem_reverse, hdrop]

end Trim

end FastDns.Filter
