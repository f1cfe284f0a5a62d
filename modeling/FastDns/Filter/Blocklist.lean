/-
The block list (`src/blocklist.rs`): what it holds and what it answers.

The sets are finite sets of normalised names. The counters of `BlocklistStats`
are left out, no decision depends on them. Fetching a source is left to the
caller of `loadSource`: its body, or none if the download or the read failed.
-/

import FastDns.Filter.Parse
import Mathlib.Data.Finset.Basic
import Mathlib.Data.Finset.Lattice.Lemmas

namespace FastDns.Filter

open FastDns.Lib

/-- `BlocklistMode` -/
inductive Mode where
  | none
  | adblock
  | malware
  | all
deriving DecidableEq, Repr

/-- `BlocklistMode::from_str` -/
def Mode.fromStr (s : Text) : Mode :=
  if s = "adblock".toList then .adblock
  else if s = "malware".toList then .malware
  else if s = "all".toList then .all
  else .none

inductive BlockResponse where
  | nxdomain
  | nullroute
deriving DecidableEq, Repr

/-- `BlockResponse::from_str` -/
def BlockResponse.fromStr (s : Text) : BlockResponse :=
  if s = "nullroute".toList then .nullroute else .nxdomain

/-- `BlockAction`. The list never answers with `NullrouteV6`. -/
inductive BlockAction where
  | nxdomain
  | nullrouteV4 (address : Text)
  | nullrouteV6 (address : Text)
  | custom (value : Text)
deriving DecidableEq, Repr

/-- The part of `ServerConfig` that `Blocklist::new` reads, the address for
`NullrouteV6` apart. -/
structure Config where
  blocklistMode : Text
  blocklistSources : List Text
  blocklist : List Text
  whitelist : List Text
  customDns : List Text
  nullroute : Text
  blockResponse : Text

/-- `Blocklist` -/
structure Blocklist where
  enabled : Bool
  mode : Mode
  blocked : Finset Text
  whitelist : Finset Text
  custom : List (Text × Text)
  sources : List Text
  nullrouteV4 : Text
  blockResponse : BlockResponse

section Building

variable (lower : Text → Text)

/-- The loops of `Blocklist::new` over the manual entries. -/
def normalisedEntries (entries : List Text) : Finset Text :=
  ((entries.map (normaliseDomain lower)).filter fun d => d ≠ []).toFinset

/-- `HashMap::insert` -/
def insertCustom (custom : List (Text × Text)) (domain value : Text) : List (Text × Text) :=
  (domain, value) :: custom.filter fun entry => entry.1 ≠ domain

/-- The loop of `Blocklist::new` over the custom records. -/
def customEntries (entries : List Text) : Outcome Empty (List (Text × Text)) :=
  entries.foldlM (fun custom entry => do
    let (domain, value) ← parseCustomDnsEntry entry
    let normalised := normaliseDomain lower domain
    pure (if normalised ≠ [] ∧ value ≠ [] then insertCustom custom normalised value else custom)) []

/-- `Blocklist::new` -/
def Blocklist.new (config : Config) : Outcome Empty Blocklist := do
  let mode := Mode.fromStr config.blocklistMode
  let custom ← customEntries lower config.customDns
  pure {
    enabled := mode ≠ .none
    mode
    blocked := normalisedEntries lower config.blocklist
    whitelist := normalisedEntries lower config.whitelist
    custom
    sources := config.blocklistSources
    nullrouteV4 := config.nullroute
    blockResponse := BlockResponse.fromStr config.blockResponse }

/-! ### Loading -/

/-- `parse_and_insert`: the loop over the lines. The returned number is that of
the new names. -/
def parseAndInsert (data : Text) (blocked : Finset Text) : Finset Text × Nat :=
  (lines data).foldl (fun (blocked, count) line =>
    match parseLine lower line with
    | some domain =>
        (insert domain blocked, if domain ∈ blocked then count else count + 1)
    | none => (blocked, count)) (blocked, 0)

/-- `load_source`, given what the fetch returned. -/
def Blocklist.loadSource (bl : Blocklist) (body : Option Text) : Blocklist × Option Nat :=
  match body with
  | some data =>
      let (blocked, count) := parseAndInsert lower data bl.blocked
      ({ bl with blocked }, some count)
  | none => (bl, none)

/-- The names in a text. -/
def domains (data : Text) : Finset Text := ((lines data).filterMap (parseLine lower)).toFinset

/-- `parse_and_insert` adds the names in the text. -/
theorem parseAndInsert_blocked (data : Text) (blocked : Finset Text) :
    (parseAndInsert lower data blocked).1 = blocked ∪ domains lower data := by
  unfold parseAndInsert domains
  generalize (0 : Nat) = count
  induction lines data generalizing blocked count with
  | nil => simp
  | cons line rest ih =>
      rw [List.foldl_cons]
      cases hline : parseLine lower line with
      | none =>
          rw [List.filterMap_cons_none hline]
          exact ih blocked count
      | some domain =>
          rw [List.filterMap_cons_some hline, List.toFinset_cons, Finset.union_insert,
            ← Finset.insert_union]
          exact ih (insert domain blocked) _

/-- A line never gives the empty name. -/
theorem parseLine_ne_nil {line domain : Text} (h : parseLine lower line = some domain) :
    domain ≠ [] := by
  unfold parseLine at h
  dsimp only at h
  split at h
  · cases h
  split at h
  · split at h
    · cases h
    · rename_i hne
      cases h
      exact hne
  · split at h
    · split at h
      · cases h
      · rename_i hne
        cases h
        exact hne
    · cases h

theorem ne_nil_of_mem_domains {data domain : Text} (h : domain ∈ domains lower data) :
    domain ≠ [] := by
  rw [domains, List.mem_toFinset, List.mem_filterMap] at h
  obtain ⟨line, _, hline⟩ := h
  exact parseLine_ne_nil lower hline

/-! ### Queries -/

/-- `block_action` -/
def Blocklist.blockAction (bl : Blocklist) : BlockAction :=
  match bl.blockResponse with
  | .nxdomain => .nxdomain
  | .nullroute => .nullrouteV4 bl.nullrouteV4

/-- The answer of a custom record: none if its value is empty or "none". -/
def customAction (value : Text) : Option BlockAction :=
  if value = [] ∨ value = "none".toList then none else some (.custom value)

/-- `check_custom_parent`: the closest parent with a custom record decides. -/
def checkCustomParent (custom : List (Text × Text)) (domain : Text) : Option BlockAction :=
  match (domainParents domain).findSome? fun parent => custom.lookup parent with
  | some value => customAction value
  | none => none

/-- `is_whitelisted_parent`, and `is_blocked_parent` -/
def hasParentIn (names : Finset Text) (domain : Text) : Bool :=
  (domainParents domain).any fun parent => parent ∈ names

/-- `is_blocked` -/
def Blocklist.isBlocked (bl : Blocklist) (domain : Text) : Option BlockAction :=
  if bl.enabled = false then none
  else
    let normalised := normaliseDomain lower domain
    if normalised = [] then none
    else
      match bl.custom.lookup normalised with
      | some value => customAction value
      | none =>
          match checkCustomParent bl.custom normalised with
          | some action => some action
          | none =>
              if normalised ∈ bl.whitelist then none
              else if hasParentIn bl.whitelist normalised then none
              else if normalised ∈ bl.blocked then some bl.blockAction
              else if hasParentIn bl.blocked normalised then some bl.blockAction
              else none

/-- Neither the name nor a parent of it has a custom record or is whitelisted. -/
def Blocklist.NoException (bl : Blocklist) (name : Text) : Prop :=
  ∀ x ∈ name :: domainParents name, bl.custom.lookup x = none ∧ x ∉ bl.whitelist

/-- A name in the set is blocked, unless there is an exception for it. -/
theorem Blocklist.isBlocked_of_mem {bl : Blocklist} {domain : Text} (henabled : bl.enabled = true)
    (hne : normaliseDomain lower domain ≠ [])
    (hexception : bl.NoException (normaliseDomain lower domain))
    (hmem : normaliseDomain lower domain ∈ bl.blocked) :
    bl.isBlocked lower domain = some bl.blockAction := by
  obtain ⟨⟨hcustom, hwhite⟩, hparents⟩ := List.forall_mem_cons.mp hexception
  have hnocustom : checkCustomParent bl.custom (normaliseDomain lower domain) = none := by
    unfold checkCustomParent
    rw [List.findSome?_eq_none_iff.mpr fun x hx => (hparents x hx).1]
  have hnowhite : hasParentIn bl.whitelist (normaliseDomain lower domain) = false := by
    unfold hasParentIn
    rw [List.any_eq_false]
    intro x hx
    simpa using (hparents x hx).2
  unfold Blocklist.isBlocked
  rw [henabled, if_neg (by decide), if_neg hne, hcustom]
  dsimp only
  rw [hnocustom]
  dsimp only
  rw [if_neg hwhite, hnowhite, if_neg (by decide), if_pos hmem]

end Building

end FastDns.Filter
