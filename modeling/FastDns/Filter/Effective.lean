/-
Whether a list blocks what it adds (`parse_and_insert` and `is_blocked` in
`src/blocklist.rs`).

A query is looked up by its normal form. A name of the list is one too, so it is
found if it is normal itself, which holds for the entries that one round settles
(`Settled`). Any other name of the list is looked up under a second normal form, and
a name below it under what its end loses (`cut`): these have to be covered by some
other name (`loadSource_effective_iff`).
-/

import FastDns.Filter.Entries
import FastDns.Filter.Normal
import Mathlib.Data.Finset.Lattice.Fold

namespace FastDns.Filter

/-- The name or a parent of it is one of the names. -/
def Catches (names : Set Text) (name : Text) : Prop :=
  name ≠ [] ∧ ∃ x ∈ withParents name, x ∈ names

/-- A name loses the blanks at its end, and then the dots. -/
def cut (s : Text) : Text := undot (s.rdropWhile isWhitespace)

/-- The names a list has before a text is loaded, and those of the entries of the
text. -/
def Blocklist.namesWith (lower : Text → Text) (bl : Blocklist) (data : Text) : Set Text :=
  {x | x ∈ bl.blocked ∨ ∃ e ∈ entries lower data, normaliseDomain lower e = x}

/-! ### Names below a name -/

section Below

variable {names : Set Text} {s d x y : Text} {domain : Text}

theorem mem_domainParents_append (y d : Text) : d ∈ domainParents (y ++ '.' :: d) := by
  induction y with
  | nil =>
      rw [List.nil_append, domainParents, if_pos rfl]
      exact List.mem_cons_self
  | cons c y ih =>
      rw [List.cons_append, domainParents]
      split
      · exact List.mem_cons_of_mem _ ih
      · exact ih

/-- Parents of a name are parents of every name below it. -/
theorem withParents_subset_append (y d : Text) :
    ∀ x ∈ withParents d, x ∈ withParents (y ++ '.' :: d) := by
  suffices hparents : ∀ x ∈ withParents d, x ∈ domainParents (y ++ '.' :: d) from
    fun x hx => List.mem_cons_of_mem _ (hparents x hx)
  intro x hx
  rcases List.mem_cons.mp hx with rfl | hx
  · exact mem_domainParents_append y x
  · induction y with
    | nil =>
        rw [List.nil_append, domainParents, if_pos rfl]
        exact List.mem_cons_of_mem _ hx
    | cons c y ih =>
        rw [List.cons_append, domainParents]
        split
        · exact List.mem_cons_of_mem _ ih
        · exact ih

/-- Without a dot in front, a name has the parents of its end. -/
theorem domainParents_append_of_no_dot (hy : '.' ∉ y) (d : Text) :
    domainParents (y ++ d) = domainParents d := by
  induction y with
  | nil => rfl
  | cons c y ih =>
      rw [List.mem_cons, not_or] at hy
      rw [List.cons_append, domainParents, if_neg (Ne.symm hy.1)]
      exact ih hy.2

theorem Catches.below (h : Catches names d) (y : Text) : Catches names (y ++ '.' :: d) := by
  obtain ⟨_, x, hx, hmem⟩ := h
  exact ⟨List.append_ne_nil_of_right_ne_nil _ (List.cons_ne_nil _ _), x,
    withParents_subset_append y d x hx, hmem⟩

theorem catches_of_mem (hne : d ≠ []) (h : d ∈ names) : Catches names d :=
  ⟨hne, d, List.mem_cons_self, h⟩

theorem rdropWhile_dot_cons {p : Char → Bool} (hp : p '.' = false) (d : Text) :
    ('.' :: d).rdropWhile p = '.' :: d.rdropWhile p := by
  change (['.'] ++ d).rdropWhile p = ['.'] ++ d.rdropWhile p
  by_cases hd : d.rdropWhile p = []
  · rw [rdropWhile_append_of_pos (List.rdropWhile_eq_nil_iff.mp hd), hd,
      List.append_nil, List.rdropWhile_singleton, hp]
    rfl
  · exact rdropWhile_append_of_neg hd

/-- Blanks are trimmed in front of a name below and behind the name. -/
theorem trim_below (x d : Text) :
    trim (x ++ '.' :: d) = x.dropWhile isWhitespace ++ '.' :: d.rdropWhile isWhitespace := by
  have hdot : isWhitespace '.' = false := by decide
  have hdrop : (x ++ '.' :: d).dropWhile isWhitespace =
      x.dropWhile isWhitespace ++ '.' :: d := by
    rw [List.dropWhile_append]
    split
    · rename_i hempty
      rw [List.isEmpty_iff.mp hempty, List.dropWhile_cons_of_neg (by rw [hdot]; decide)]
      rfl
    · rfl
  rw [trim, hdrop,
    rdropWhile_append_of_neg (by rw [rdropWhile_dot_cons hdot]; exact List.cons_ne_nil _ _),
    rdropWhile_dot_cons hdot]

theorem undot_below (y : Text) (hs : undot s ≠ []) :
    undot (y ++ '.' :: s) = y ++ '.' :: undot s := by
  change undot (y ++ (['.'] ++ s)) = y ++ (['.'] ++ undot s)
  rw [← List.append_assoc, ← List.append_assoc]
  exact rdropWhile_append_of_neg hs

/-- The wildcard of a name below may be all that stands above the name. -/
theorem unwild_below (y d : Text) :
    unwild (y ++ '.' :: d) = d ∨ ∃ z, unwild (y ++ '.' :: d) = z ++ '.' :: d := by
  rcases wild_cases (y ++ '.' :: d) with ⟨rest, hwild, heq⟩ | ⟨hstar, _⟩ | ⟨_, _, heq⟩
  · rw [heq]
    rcases y with _ | ⟨c, _ | ⟨c', y⟩⟩
    · cases hwild
    · cases hwild
      exact .inl rfl
    · cases hwild
      exact .inr ⟨y, rfl⟩
  · rcases y with _ | ⟨c, y⟩
    · cases hstar
    · exact absurd (List.cons.inj hstar).2
        (List.append_ne_nil_of_right_ne_nil _ (List.cons_ne_nil _ _))
  · exact .inr ⟨y, heq⟩

end Below

/-! ### What is looked up -/

namespace CaseTable

section LookUp

variable {u : CaseTable} {names : Set Text} {d : Text}

theorem stable_below (hd : u.Stable d) : u.Stable ('.' :: d.rdropWhile isWhitespace) := by
  refine List.forall_mem_cons.mpr ⟨⟨?_, by decide⟩, fun x hx => hd x ?_⟩
  · exact Form.eq_of_fixed (.inl rfl) fixed_dot
  · exact (List.rdropWhile_prefix _ _).mem hx

/-- A name below a lower-case name is looked up below the rest of that name. -/
theorem normaliseDomain_below (hd : u.Stable d) (hcut : cut d ≠ []) (x : Text) :
    normaliseDomain u.toLowercase (x ++ '.' :: d) = cut d ∨
      ∃ y, normaliseDomain u.toLowercase (x ++ '.' :: d) = y ++ '.' :: cut d := by
  obtain ⟨a, _, hlower⟩ :=
    toLowercase_append_of_stable (a := x.dropWhile isWhitespace) (stable_below hd)
  rw [normaliseDomain_eq, trim_below, hlower, undot_below a hcut]
  exact unwild_below a (cut d)

/-- A label without marks keeps its place above the name. -/
theorem normaliseDomain_label (hd : u.Stable d) (n : Nat) :
    normaliseDomain u.toLowercase (List.replicate (n + 1) 'a' ++ '.' :: d) =
      if cut d = [] then List.replicate (n + 1) 'a'
      else List.replicate (n + 1) 'a' ++ '.' :: cut d := by
  have hlabel : u.Stable (List.replicate (n + 1) 'a') := by
    intro x hx
    rw [List.eq_of_mem_replicate hx]
    exact ⟨u.ascii 'a' (by decide), by decide⟩
  have hnoWild : ∀ s,
      unwild (List.replicate (n + 1) 'a' ++ s) = List.replicate (n + 1) 'a' ++ s := by
    intro s
    refine unwild_of_not_wild ?_ ?_
    · intro rest h
      cases h
    · intro h
      cases h
  have hdrop : (List.replicate (n + 1) 'a').dropWhile isWhitespace =
      List.replicate (n + 1) 'a' := by
    rw [List.replicate_succ, List.dropWhile_cons_of_neg (by decide)]
  rw [normaliseDomain_eq, trim_below, hdrop,
    toLowercase_of_stable (List.forall_mem_append.mpr ⟨hlabel, stable_below hd⟩)]
  split
  · rename_i hcut
    have hdots : ∀ x ∈ '.' :: d.rdropWhile isWhitespace, decide (x = '.') = true :=
      List.forall_mem_cons.mpr ⟨by decide, List.rdropWhile_eq_nil_iff.mp hcut⟩
    have hundot : undot (List.replicate (n + 1) 'a') = List.replicate (n + 1) 'a' := by
      rw [undot, List.replicate_succ', List.rdropWhile_concat_neg _ _ _ (by decide)]
    have hall := hnoWild []
    rw [List.append_nil] at hall
    rw [undot, rdropWhile_append_of_pos hdots, ← undot, hundot, hall]
  · rename_i hcut
    rw [undot_below _ hcut, hnoWild]
    rfl

/-- All names below a lower-case name are covered exactly if the rest of that name
is: some label is longer than every name. -/
theorem forall_below_catches_iff {names : Finset Text} (hd : u.Stable d) :
    (∀ x, Catches names (normaliseDomain u.toLowercase (x ++ '.' :: d))) ↔
      Catches names (cut d) := by
  constructor
  · intro h
    have hlong : ∀ s ∈ names, s.length < names.sup List.length + 1 :=
      fun s hs => Nat.lt_succ_of_le (Finset.le_sup (f := List.length) hs)
    have hcatches := h (List.replicate (names.sup List.length + 1) 'a')
    rw [normaliseDomain_label hd] at hcatches
    have hnodot : '.' ∉ List.replicate (names.sup List.length + 1) 'a' :=
      fun hmem => absurd (List.eq_of_mem_replicate hmem) (by decide)
    obtain ⟨_, x, hx, hmem⟩ := hcatches
    have hshort := hlong x hmem
    split at hx
    · rcases List.mem_cons.mp hx with rfl | hx
      · rw [List.length_replicate] at hshort
        exact absurd hshort (Nat.lt_irrefl _)
      · rw [← List.append_nil (List.replicate _ 'a'), domainParents_append_of_no_dot hnodot] at hx
        cases hx
    · rename_i hcut
      rcases List.mem_cons.mp hx with rfl | hx
      · rw [List.length_append, List.length_replicate] at hshort
        omega
      · rw [domainParents_append_of_no_dot hnodot, domainParents, if_pos rfl] at hx
        exact ⟨hcut, x, hx, hmem⟩
  · intro h x
    rcases normaliseDomain_below hd h.1 x with heq | ⟨y, heq⟩
    · rw [heq]
      exact h
    · rw [heq]
      exact h.below y

theorem cut_of_bare (h : Bare d) : cut d = d := by
  have hblank := rdropWhile_eq_self_iff_getLast?.mpr h.trimmed.last
  rw [cut, hblank, undot, rdropWhile_eq_self_iff_getLast?]
  exact fun c hc => decide_eq_false (h.noDot c hc)

end LookUp

end CaseTable

/-! ### Loading a text -/

section Loading

variable {lower : Text → Text} {bl : Blocklist} {data domain : Text}

/-- Without exceptions the blocked names decide. -/
theorem isBlocked_iff_catches (henabled : bl.enabled = true) (hwhitelist : bl.whitelist = ∅)
    (hcustom : bl.custom = []) :
    bl.isBlocked lower domain = some bl.blockAction ↔
      Catches bl.blocked (normaliseDomain lower domain) := by
  by_cases hne : normaliseDomain lower domain = []
  · refine iff_of_false ?_ fun h => h.1 hne
    unfold Blocklist.isBlocked
    rw [henabled, if_neg (by decide), if_pos hne]
    exact nofun
  · have hrecord : ((domainParents (normaliseDomain lower domain)).findSome?
        fun x => bl.custom.lookup x) = none := by
      rw [List.findSome?_eq_none_iff, hcustom]
      exact fun _ _ => rfl
    rw [isBlocked_eq henabled rfl hne, hrecord, hcustom, List.lookup_nil, Option.bind_none]
    dsimp only
    unfold Blocklist.listed
    rw [if_neg (by simp [hwhitelist])]
    by_cases hmem : ∃ x ∈ withParents (normaliseDomain lower domain), x ∈ bl.blocked
    · rw [if_pos (by simpa using hmem)]
      exact iff_of_true rfl ⟨hne, hmem⟩
    · rw [if_neg (by simpa using hmem)]
      exact iff_of_false nofun fun h => hmem h.2

theorem loadSource_blocked (bl : Blocklist) (data : Text) :
    ((bl.loadSource lower (some data)).1.blocked : Set Text) = bl.namesWith lower data := by
  have hblocked : (bl.loadSource lower (some data)).1.blocked = bl.blocked ∪ domains lower data :=
    parseAndInsert_blocked lower data bl.blocked
  ext x
  rw [hblocked, Finset.mem_coe, Finset.mem_union, mem_domains_iff]
  rfl

/-- **What a list adds is blocked** with every name below it, exactly if each of its
entries is settled after one round or is covered by some other name. -/
theorem loadSource_effective_iff (u : CaseTable) (bl : Blocklist) (data : Text)
    (henabled : bl.enabled = true) (hwhitelist : bl.whitelist = ∅) (hcustom : bl.custom = []) :
    (∀ s, normaliseDomain u.toLowercase (normaliseDomain u.toLowercase s) =
        normaliseDomain u.toLowercase s ↔ Settled s) ∧
      ((∀ domain ∈ domains u.toLowercase data,
          (bl.loadSource u.toLowercase (some data)).1.isBlocked u.toLowercase domain =
              some bl.blockAction ∧
            ∀ x, (bl.loadSource u.toLowercase (some data)).1.isBlocked u.toLowercase
              (x ++ '.' :: domain) = some bl.blockAction) ↔
        ∀ e ∈ entries u.toLowercase data, Settled e ∨
          Catches (bl.namesWith u.toLowercase data) (bare (normaliseDomain u.toLowercase e)) ∧
            Catches (bl.namesWith u.toLowercase data) (cut (normaliseDomain u.toLowercase e))) := by
  refine ⟨CaseTable.normaliseDomain_eq_self_iff, ?_⟩
  have hlookup : ∀ domain, (bl.loadSource u.toLowercase (some data)).1.isBlocked u.toLowercase
      domain = some bl.blockAction ↔
        Catches (bl.loadSource u.toLowercase (some data)).1.blocked
          (normaliseDomain u.toLowercase domain) :=
    fun domain => isBlocked_iff_catches henabled hwhitelist hcustom
  have hadded : ∀ e ∈ entries u.toLowercase data, normaliseDomain u.toLowercase e ≠ [] ∧
      normaliseDomain u.toLowercase e ∈ bl.namesWith u.toLowercase data := by
    intro e he
    refine ⟨ne_nil_of_mem_domains u.toLowercase (mem_domains_iff.mpr ⟨e, he, rfl⟩), ?_⟩
    exact .inr ⟨e, he, rfl⟩
  have hentries : ∀ P : Text → Prop, (∀ domain ∈ domains u.toLowercase data, P domain) ↔
      ∀ e ∈ entries u.toLowercase data, P (normaliseDomain u.toLowercase e) := by
    simp only [mem_domains_iff]
    exact fun P => ⟨fun h e he => h _ ⟨e, he, rfl⟩, fun h _ ⟨e, he, heq⟩ => heq ▸ h e he⟩
  rw [hentries]
  refine forall₂_congr fun e he => ?_
  obtain ⟨hne, hmem⟩ := hadded e he
  simp only [hlookup]
  rw [CaseTable.forall_below_catches_iff (CaseTable.stable_normalise e), loadSource_blocked,
    CaseTable.normaliseDomain_of_stable (CaseTable.stable_normalise e)]
  refine (or_iff_right_of_imp fun hsettled => ?_).symm
  have hbare : Bare (normaliseDomain u.toLowercase e) :=
    (CaseTable.lowers_normalise e).bare_iff.mpr (bare_bare_iff.mpr hsettled)
  rw [hbare.bare_eq, CaseTable.cut_of_bare hbare]
  exact ⟨catches_of_mem hne hmem, catches_of_mem hne hmem⟩

end Loading

/-! ### One entry -/

/-- A list that is switched on and holds nothing. -/
def emptyList : Blocklist where
  enabled := true
  mode := .all
  blocked := ∅
  whitelist := ∅
  custom := []
  sources := []
  nullrouteV4 := []
  blockResponse := .nxdomain

/-- An entry with two wildcards: the name is stored with the second, and a query for
it loses that one too. -/
theorem twoWildcards_escape :
    ¬ normaliseDomain CaseTable.latin.toLowercase
          (normaliseDomain CaseTable.latin.toLowercase "*.*.example.com".toList) =
        normaliseDomain CaseTable.latin.toLowercase "*.*.example.com".toList ∧
      "*.example.com".toList ∈ domains CaseTable.latin.toLowercase "*.*.example.com\n".toList ∧
      ¬ (emptyList.loadSource CaseTable.latin.toLowercase
          (some "*.*.example.com\n".toList)).1.isBlocked CaseTable.latin.toLowercase
            "*.example.com".toList = some emptyList.blockAction := by
  decide +kernel

/-- A list with one plain name blocks the name and one below. -/
theorem plainName_effective :
    (emptyList.loadSource CaseTable.latin.toLowercase
        (some "Ads.example.com.\n".toList)).1.isBlocked CaseTable.latin.toLowercase
          "ads.example.com".toList = some emptyList.blockAction ∧
      (emptyList.loadSource CaseTable.latin.toLowercase
        (some "Ads.example.com.\n".toList)).1.isBlocked CaseTable.latin.toLowercase
          (['x'] ++ '.' :: "ads.example.com".toList) = some emptyList.blockAction := by
  have hiff := loadSource_effective_iff CaseTable.latin emptyList "Ads.example.com.\n".toList
    rfl rfl rfl
  have hentries : entries CaseTable.latin.toLowercase "Ads.example.com.\n".toList =
      ["Ads.example.com.".toList] := by
    decide +kernel
  have hname : normaliseDomain CaseTable.latin.toLowercase "Ads.example.com.".toList =
      "ads.example.com".toList := by
    decide +kernel
  have hdomain : "ads.example.com".toList ∈
      domains CaseTable.latin.toLowercase "Ads.example.com.\n".toList := by
    rw [mem_domains_iff, hentries]
    exact ⟨_, List.mem_singleton_self _, hname⟩
  have hblocked := hiff.2.mpr (fun e he => ?_) _ hdomain
  · exact ⟨hblocked.1, hblocked.2 ['x']⟩
  · rw [hentries] at he
    rw [List.mem_singleton.mp he, ← hiff.1, hname]
    exact .inl (by decide +kernel)

end FastDns.Filter
