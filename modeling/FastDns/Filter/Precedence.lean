/-
The order in which `is_blocked` (`src/blocklist.rs`) looks a name up, for the name
and its parents.

The documented order is custom records, then the whitelist, then the blocked
names, each for the name and every parent, the closest first (`precedence`). The
code agrees with it except in one place. A parent's custom record that allows the
name makes `check_custom_parent` return none, which the caller takes for "no
record": the lists decide then (`isBlocked_eq`).
-/

import FastDns.Filter.Blocklist

namespace FastDns.Filter

/-! ### The documented order -/

/-- A name and its parents, the closest first. -/
def withParents (domain : Text) : List Text := domain :: domainParents domain

/-- The lists without the custom records: the whitelist, then the blocked names. -/
def Blocklist.listed (bl : Blocklist) (domain : Text) : Option BlockAction :=
  if (withParents domain).any fun x => x ∈ bl.whitelist then none
  else if (withParents domain).any fun x => x ∈ bl.blocked then some bl.blockAction
  else none

/-- The closest custom record decides, without one the lists do. -/
def Blocklist.precedence (bl : Blocklist) (domain : Text) : Option BlockAction :=
  match (withParents domain).findSome? fun x => bl.custom.lookup x with
  | some value => customAction value
  | none => bl.listed domain

section Order

variable {lower : Text → Text} {bl : Blocklist} {domain name value : Text}

theorem any_withParents {names : Finset Text} :
    (withParents domain).any (fun x => x ∈ names) =
      (decide (domain ∈ names) || hasParentIn names domain) :=
  List.any_cons

/-- The four look-ups behind the custom records are those of the lists. -/
theorem listed_eq (bl : Blocklist) (name : Text) :
    (if name ∈ bl.whitelist then none
      else if hasParentIn bl.whitelist name then none
      else if name ∈ bl.blocked then some bl.blockAction
      else if hasParentIn bl.blocked name then some bl.blockAction
      else none) = bl.listed name := by
  unfold Blocklist.listed
  rw [any_withParents, any_withParents]
  by_cases hwhite : name ∈ bl.whitelist
  · simp [hwhite]
  · by_cases hblocked : name ∈ bl.blocked
    · simp [hwhite, hblocked]
    · simp [hwhite, hblocked]

/-- The lists block a name that is on the one and not on the other. -/
theorem listed_eq_none :
    bl.listed domain = none ↔
      (∃ x ∈ withParents domain, x ∈ bl.whitelist) ∨ ∀ x ∈ withParents domain, x ∉ bl.blocked := by
  unfold Blocklist.listed
  by_cases hwhite : ∃ x ∈ withParents domain, x ∈ bl.whitelist
  · rw [if_pos (by simpa using hwhite)]
    exact iff_of_true rfl (.inl hwhite)
  · rw [if_neg (by simpa using hwhite), or_iff_right hwhite]
    by_cases hblocked : ∃ x ∈ withParents domain, x ∈ bl.blocked
    · rw [if_pos (by simpa using hblocked)]
      refine iff_of_false nofun fun hno => ?_
      obtain ⟨x, hx, hmem⟩ := hblocked
      exact hno x hx hmem
    · rw [if_neg (by simpa using hblocked)]
      exact iff_of_true rfl fun x hx hmem => hblocked ⟨x, hx, hmem⟩

theorem customAction_eq_none : customAction value = none ↔ value = [] ∨ value = "none".toList := by
  unfold customAction
  split
  · rename_i hallows
    exact iff_of_true rfl hallows
  · rename_i hallows
    exact iff_of_false nofun hallows

/-- What `is_blocked` answers. The record of a parent counts only if it gives an
address. -/
theorem isBlocked_eq (henabled : bl.enabled = true) (hname : normaliseDomain lower domain = name)
    (hne : name ≠ []) :
    bl.isBlocked lower domain =
      match bl.custom.lookup name with
      | some value => customAction value
      | none =>
          match ((domainParents name).findSome? fun x => bl.custom.lookup x).bind customAction with
          | some action => some action
          | none => bl.listed name := by
  unfold Blocklist.isBlocked
  rw [henabled, if_neg (by decide)]
  dsimp only
  rw [hname, if_neg hne, listed_eq]
  unfold checkCustomParent
  cases (domainParents name).findSome? fun x => bl.custom.lookup x with
  | none => rfl
  | some value => rfl

/-- **When `is_blocked` follows the documented order.** It does, unless the closest
custom record is that of a parent, allows the name, and the lists block it. -/
theorem isBlocked_precedence_iff (lower : Text → Text) (bl : Blocklist) (domain : Text)
    (henabled : bl.enabled = true) (hne : normaliseDomain lower domain ≠ []) :
    bl.isBlocked lower domain = bl.precedence (normaliseDomain lower domain) ↔
      ∀ value, bl.custom.lookup (normaliseDomain lower domain) = none →
        ((domainParents (normaliseDomain lower domain)).findSome? fun x => bl.custom.lookup x) =
          some value →
        value = [] ∨ value = "none".toList →
        (∃ x ∈ withParents (normaliseDomain lower domain), x ∈ bl.whitelist) ∨
          ∀ x ∈ withParents (normaliseDomain lower domain), x ∉ bl.blocked := by
  generalize hname : normaliseDomain lower domain = name at hne
  simp only [← customAction_eq_none, ← listed_eq_none]
  rw [isBlocked_eq henabled hname hne, Blocklist.precedence, withParents, List.findSome?_cons]
  cases hexact : bl.custom.lookup name with
  | some value => simp
  | none =>
      dsimp only
      cases hparent : (domainParents name).findSome? fun x => bl.custom.lookup x with
      | none => simp
      | some value =>
          -- Only here the two can differ: the record says no, the code goes on.
          rw [Option.bind_some]
          cases haction : customAction value with
          | some action => simp [haction]
          | none => simp [haction]

end Order

/-! ### A parent that is allowed -/

/-- The list blocks `ads.example.com`, and the custom record "none" of `example.com`
allows it and all below. -/
def allowedParent : Blocklist where
  enabled := true
  mode := .all
  blocked := {"ads.example.com".toList}
  whitelist := ∅
  custom := [("example.com".toList, "none".toList)]
  sources := []
  nullrouteV4 := []
  blockResponse := .nxdomain

/-- The name stays blocked. -/
theorem allowedParent_blocks :
    ¬ allowedParent.isBlocked (List.map Char.toLower) "ads.example.com".toList =
      allowedParent.precedence
        (normaliseDomain (List.map Char.toLower) "ads.example.com".toList) := by
  decide +kernel

/-- The parent itself is allowed, as its record asks. -/
theorem allowedParent_allows :
    allowedParent.isBlocked (List.map Char.toLower) "example.com".toList =
      allowedParent.precedence
        (normaliseDomain (List.map Char.toLower) "example.com".toList) :=
  (isBlocked_precedence_iff (List.map Char.toLower) allowedParent "example.com".toList rfl
    (by decide +kernel)).mpr fun _ hnone => absurd hnone (by decide +kernel)

end FastDns.Filter
