/-
Lists of words and the string they make when they are written after each other.

The string alone does not say where a word ends. Two cases in which the list
comes back from it are needed here:

* no word is a prefix of another (`flatten_inj`);
* both lists hold the same words, each in an order in which a word never comes
  after one it is a prefix of (`eq_of_flatten_eq_of_pairwise`). The orders may be
  different ones.

`append_le_append_iff` compares words that start with fields of one size.
-/

import Mathlib.Data.List.Sort

namespace FastDns.Lib

variable {α : Type*}

/-- Of two words that begin the same string one is a prefix of the other. -/
theorem isPrefix_or_of_append_eq {a b s t : List α} (h : a ++ s = b ++ t) : a <+: b ∨ b <+: a :=
  List.prefix_or_prefix_of_prefix (List.prefix_append a s) (h ▸ List.prefix_append b t)

/-- Words of which none is a prefix of another can be told apart in a string. -/
theorem flatten_inj {word : List α → Prop} (hne : ∀ a, word a → a ≠ [])
    (hfree : ∀ a b, word a → word b → a <+: b → a = b) {l m : List (List α)}
    (hl : ∀ a ∈ l, word a) (hm : ∀ b ∈ m, word b) (h : l.flatten = m.flatten) : l = m := by
  induction l generalizing m with
  | nil =>
      cases m with
      | nil => rfl
      | cons b m =>
          have hb := hm b (List.mem_cons_self ..)
          exact absurd (List.append_eq_nil_iff.mp h.symm).1 (hne b hb)
  | cons a l ih =>
      have ha := hl a (List.mem_cons_self ..)
      cases m with
      | nil => exact absurd (List.append_eq_nil_iff.mp h).1 (hne a ha)
      | cons b m =>
          have hb := hm b (List.mem_cons_self ..)
          rw [List.flatten_cons, List.flatten_cons] at h
          have hab : a = b := by
            rcases isPrefix_or_of_append_eq h with hpre | hpre
            · exact hfree a b ha hb hpre
            · exact (hfree b a hb ha hpre).symm
          subst hab
          have hrest := ih (fun c hc => hl c (List.mem_cons_of_mem _ hc))
            (fun c hc => hm c (List.mem_cons_of_mem _ hc)) (List.append_cancel_left h)
          rw [hrest]

/-- Two arrangements of the same words that make the same string are the same, if
neither of them puts a word after one that it is a prefix of. -/
theorem eq_of_flatten_eq_of_pairwise {r q : List α → List α → Prop} {l l' : List (List α)}
    (hr : ∀ a ∈ l, ∀ b ∈ l, b <+: a → r a b → a = b)
    (hq : ∀ a ∈ l, ∀ b ∈ l, b <+: a → q a b → a = b)
    (hperm : l.Perm l') (hl : l.Pairwise r) (hl' : l'.Pairwise q)
    (h : l.flatten = l'.flatten) : l = l' := by
  induction l generalizing l' with
  | nil => exact (List.nil_perm.mp hperm).symm
  | cons a l ih =>
      cases l' with
      | nil => exact absurd hperm.symm (List.nil_perm.not.mpr (List.cons_ne_nil _ _))
      | cons b l' =>
          rw [List.flatten_cons, List.flatten_cons] at h
          have hmem : b ∈ a :: l := hperm.mem_iff.mpr (List.mem_cons_self ..)
          have hmem' : a ∈ b :: l' := hperm.mem_iff.mp (List.mem_cons_self ..)
          have hab : a = b := by
            -- The longer of the two heads stands before the shorter one in its list.
            rcases isPrefix_or_of_append_eq h with hpre | hpre
            · rcases List.mem_cons.mp hmem' with hab | htail
              · exact hab
              · exact (hq b hmem a (List.mem_cons_self ..) hpre
                  (List.rel_of_pairwise_cons hl' htail)).symm
            · rcases List.mem_cons.mp hmem with hab | htail
              · exact hab.symm
              · exact hr a (List.mem_cons_self ..) b hmem hpre (List.rel_of_pairwise_cons hl htail)
          subst hab
          have hrest := ih
            (fun c hc d hd => hr c (List.mem_cons_of_mem _ hc) d (List.mem_cons_of_mem _ hd))
            (fun c hc d hd => hq c (List.mem_cons_of_mem _ hc) d (List.mem_cons_of_mem _ hd))
            hperm.cons_inv hl.of_cons hl'.of_cons (List.append_cancel_left h)
          rw [hrest]

/-- Words that start with fields of the same length are compared field by field. -/
theorem append_le_append_iff [LT α] [Std.Asymm fun x y : α => x < y]
    [Std.Trichotomous fun x y : α => x < y] {a b s t : List α} (h : a.length = b.length) :
    a ++ s ≤ b ++ t ↔ a < b ∨ a = b ∧ s ≤ t := by
  induction a generalizing b with
  | nil =>
      have hb : b = [] := List.length_eq_zero_iff.mp h.symm
      simp [hb]
  | cons x a ih =>
      cases b with
      | nil => cases h
      | cons y b =>
          have hlen : a.length = b.length := Nat.succ.inj h
          rw [List.cons_append, List.cons_append, List.cons_le_cons_iff, ih hlen,
            List.cons_lt_cons_iff, List.cons.injEq]
          tauto

end FastDns.Lib
