/-
What a block list answers over its life (`src/blocklist.rs`: `is_blocked` and
`get_custom` during `load` and `refresh`).

The custom records and the whitelist are those of the configuration throughout. The
blocked names are those of the texts that were fetched since the set was cleared
last, by either task, and up to the first time also the manual ones. So the events
since then decide every answer (`runs_answer`).
-/

import FastDns.Filter.Precedence
import FastDns.Filter.Refresh
import FastDns.Lib.Trace
import Mathlib.Data.List.DropRight

namespace FastDns.Filter

open FastDns.Lib

/-! ### Custom records -/

/-- `find_parent_custom` -/
def findParentCustom (custom : List (Text × Text)) (domain : Text) : Option Text :=
  (domainParents domain).findSome? fun parent => custom.lookup parent

/-- `get_custom` -/
def Blocklist.getCustom (lower : Text → Text) (bl : Blocklist) (domain : Text) : Option Text :=
  if bl.enabled = false then none
  else
    let normalised := normaliseDomain lower domain
    if normalised = [] then none
    else
      match bl.custom.lookup normalised with
      | some value => some value
      | none => findParentCustom bl.custom normalised

section Answers

variable {lower : Text → Text} {bl : Blocklist} {domain name value : Text} {action : BlockAction}

theorem customAction_eq_some :
    customAction value = some action ↔
      action = .custom value ∧ value ≠ [] ∧ value ≠ "none".toList := by
  unfold customAction
  split
  · rename_i hallows
    exact iff_of_false nofun fun h => hallows.elim h.2.1 h.2.2
  · rename_i hallows
    rw [not_or] at hallows
    rw [Option.some.injEq, eq_comm, and_iff_left hallows]

theorem blockAction_ne_custom : bl.blockAction ≠ .custom value := by
  unfold Blocklist.blockAction
  split <;> simp

/-- The lists either block a name or let it pass. -/
theorem listed_eq_some : bl.listed domain = some action ↔
    action = bl.blockAction ∧ (∀ x ∈ withParents domain, x ∉ bl.whitelist) ∧
      ∃ x ∈ withParents domain, x ∈ bl.blocked := by
  have hcases : bl.listed domain = none ∨ bl.listed domain = some bl.blockAction := by
    unfold Blocklist.listed
    split
    · exact .inl rfl
    split
    · exact .inr rfl
    · exact .inl rfl
  have hnone : ¬ bl.listed domain = none ↔ _ := not_congr listed_eq_none
  push Not at hnone
  constructor
  · intro h
    refine ⟨?_, hnone.mp (by simp [h])⟩
    simpa [h] using hcases
  · rintro ⟨rfl, hlisted⟩
    exact hcases.resolve_left (hnone.mpr hlisted)

/-- An enabled list looks up the name and its parents, the name first. -/
theorem getCustom_eq (henabled : bl.enabled = true) (hname : normaliseDomain lower domain = name)
    (hne : name ≠ []) :
    bl.getCustom lower domain = (withParents name).findSome? fun x => bl.custom.lookup x := by
  unfold Blocklist.getCustom
  rw [henabled, if_neg (by decide)]
  dsimp only
  rw [hname, if_neg hne, withParents, List.findSome?_cons]
  cases bl.custom.lookup name with
  | none => rfl
  | some value => rfl

/-- Where the list is off, or no name is left, nothing is answered. -/
theorem isBlocked_off (h : bl.enabled = false ∨ normaliseDomain lower domain = []) :
    bl.isBlocked lower domain = none ∧ bl.getCustom lower domain = none := by
  unfold Blocklist.isBlocked Blocklist.getCustom
  rcases h with hoff | hempty
  · simp [hoff]
  · simp [hempty]

/-- Every answer is that of a custom record, or the block action. -/
theorem isBlocked_eq_some : bl.isBlocked lower domain = some action ↔
    (∃ value, action = .custom value ∧ bl.getCustom lower domain = some value ∧ value ≠ [] ∧
      value ≠ "none".toList) ∨
    (bl.enabled = true ∧ normaliseDomain lower domain ≠ [] ∧
      bl.custom.lookup (normaliseDomain lower domain) = none ∧
      (∀ value, bl.getCustom lower domain = some value → value = [] ∨ value = "none".toList) ∧
      bl.listed (normaliseDomain lower domain) = some action) := by
  by_cases hoff : bl.enabled = false ∨ normaliseDomain lower domain = []
  · obtain ⟨hblocked, hcustom⟩ := isBlocked_off hoff
    rw [hblocked, hcustom]
    refine iff_of_false nofun ?_
    rintro (⟨_, _, h, _⟩ | ⟨henabled, hne, _⟩)
    · cases h
    · exact hoff.elim (by simp [henabled]) hne
  · rw [not_or, Bool.not_eq_false] at hoff
    obtain ⟨henabled, hne⟩ := hoff
    rw [getCustom_eq henabled rfl hne, isBlocked_eq henabled rfl hne, withParents,
      List.findSome?_cons]
    cases bl.custom.lookup (normaliseDomain lower domain) with
    | some value => simp [customAction_eq_some]
    | none =>
        cases (domainParents (normaliseDomain lower domain)).findSome? fun x =>
            bl.custom.lookup x with
        | none => simp [henabled, hne]
        | some value =>
            dsimp only
            rw [Option.bind_some]
            cases haction : customAction value with
            | none =>
                -- The record lets the name pass to the lists.
                have hallows := customAction_eq_none.mp haction
                simp only [henabled, Option.some.injEq]
                constructor
                · intro hlisted
                  exact .inr ⟨trivial, hne, trivial, by rintro _ rfl; exact hallows, hlisted⟩
                · rintro (⟨_, _, rfl, hgives⟩ | ⟨_, _, _, _, hlisted⟩)
                  · exact absurd hallows (by simpa using hgives)
                  · exact hlisted
            | some given =>
                obtain ⟨rfl, hgives⟩ := customAction_eq_some.mp haction
                simp only [Option.some.injEq]
                constructor
                · rintro rfl
                  exact .inl ⟨value, rfl, rfl, hgives⟩
                · rintro (⟨_, rfl, rfl, _⟩ | ⟨_, _, _, hallows, _⟩)
                  · rfl
                  · exact absurd (hallows value rfl) (by simpa using hgives)

end Answers

/-! ### The records of a configuration -/

section Records

variable {lower : Text → Text} {custom custom' : List (Text × Text)} {domain value : Text}

/-- An entry is inserted, and may replace another one. -/
theorem forall_mem_insertCustom {P : Text × Text → Prop} (hnew : P (domain, value))
    (h : ∀ entry ∈ custom, P entry) : ∀ entry ∈ insertCustom custom domain value, P entry := by
  intro entry hentry
  rcases List.mem_cons.mp hentry with rfl | hold
  · exact hnew
  · exact h entry (List.mem_of_mem_filter hold)

/-- No record has an empty value. -/
theorem customEntries_ne_nil {entries : List Text} (h : customEntries lower entries = .ok custom) :
    ∀ entry ∈ custom, entry.2 ≠ [] := by
  have hstart : ∀ entry ∈ ([] : List (Text × Text)), entry.2 ≠ [] :=
    fun _ hentry => absurd hentry List.not_mem_nil
  unfold customEntries at h
  generalize ([] : List (Text × Text)) = before at h hstart
  induction entries generalizing before with
  | nil =>
      cases h
      exact hstart
  | cons entry entries ih =>
      rw [List.foldlM_cons] at h
      obtain ⟨next, hnext, hrest⟩ := Outcome.bind_eq_ok.mp h
      obtain ⟨⟨domain, value⟩, _, hinsert⟩ := Outcome.bind_eq_ok.mp hnext
      refine ih next hrest ?_
      cases hinsert
      split
      · rename_i hkept
        exact forall_mem_insertCustom hkept.2 hstart
      · exact hstart

theorem mem_of_lookup (h : custom.lookup domain = some value) : (domain, value) ∈ custom := by
  obtain ⟨before, after, rfl, _⟩ := List.lookup_eq_some_iff.mp h
  simp

end Records

/-! ### Runs -/

/-- A cycle of `refresh` begins. -/
def Event.clears : Event → Bool
  | .wake => true
  | _ => false

section Runs

variable (lower : Text → Text)

/-- The names in the text that was fetched. -/
def Event.names : Event → Finset Text
  | .loaded (some data) => domains lower data
  | .refreshed (some data) => domains lower data
  | _ => ∅

/-- A run of the two tasks, with what happened. -/
abbrev Runs (list : Blocklist) : List Event → World → Prop :=
  Trace (World.step lower) (World.start list)

/-- What happened since the set was cleared last. -/
def sinceCleared (events : List Event) : List Event := events.rtakeWhile fun e => !e.clears

/-- A manual name, up to the first time that the set is cleared, or one of a text
that was fetched since. -/
def Named (config : Config) (events : List Event) (name : Text) : Prop :=
  (∀ e ∈ events, e.clears = false) ∧ name ∈ normalisedEntries lower config.blocklist ∨
    ∃ e ∈ sinceCleared events, name ∈ e.names lower

variable {lower} {config : Config} {list : Blocklist} {events : List Event} {w : World}

/-- The runs are those of the tasks. -/
theorem reached_iff_runs :
    Reached lower config w ↔
      ∃ list events, Blocklist.new lower config = .ok list ∧ Runs lower list events w := by
  constructor
  · intro h
    induction h with
    | start hnew => exact ⟨_, [], hnew, .start⟩
    | step _ hstep ih =>
        obtain ⟨list, events, hnew, hruns⟩ := ih
        exact ⟨list, _, hnew, .step hruns hstep⟩
  · rintro ⟨list, events, hnew, hruns⟩
    induction hruns with
    | start => exact .start hnew
    | step _ hstep ih => exact .step ih hstep

/-- A fetch adds the names in its text. -/
theorem fetched_list (source : Text) (body : Option Text) :
    (w.fetched lower source body).list = { w.list with
      blocked := w.list.blocked ∪ (Event.loaded body).names lower } := by
  cases body with
  | none => simp [World.fetched, Blocklist.loadSource, Event.names]
  | some data => simp [World.fetched, Blocklist.loadSource, Event.names, parseAndInsert_blocked]

/-- What one step does to the list. -/
theorem step_list {w' : World} {e : Event} (h : w.step lower e = some w') :
    w'.list = { w.list with
      blocked := if e.clears then ∅ else w.list.blocked ∪ e.names lower } := by
  cases e with
  | load =>
      simp only [World.step] at h
      split at h
      · cases h
        simp [Event.clears, Event.names]
      · cases h
  | loaded body =>
      simp only [World.step] at h
      split at h
      · cases h
        exact fetched_list _ body
      · cases h
  | wake =>
      simp only [World.step] at h
      split at h
      · cases h
        rfl
      · cases h
  | refreshed body =>
      simp only [World.step] at h
      split at h
      · cases h
        rw [show (Event.refreshed body).names lower = (Event.loaded body).names lower by
          cases body <;> rfl]
        exact fetched_list _ body
      · cases h
  | sleep =>
      simp only [World.step] at h
      split at h
      · cases h
        simp [Event.clears, Event.names]
      · cases h
  | query domain =>
      cases h
      simp [Event.clears, Event.names]

/-- Only the blocked names change. -/
theorem Runs.list_eq (h : Runs lower list events w) :
    w.list = { list with blocked := w.list.blocked } := by
  refine h.invariant (I := fun w => w.list = { list with blocked := w.list.blocked }) rfl
    fun hw hstep => ?_
  rw [step_list hstep]
  rw [hw]

/-- A clearing event forgets what was loaded before. -/
theorem sinceCleared_concat (events : List Event) (e : Event) :
    sinceCleared (events ++ [e]) = if e.clears then [] else sinceCleared events ++ [e] := by
  rw [sinceCleared, List.rtakeWhile_concat]
  cases e.clears <;> rfl

/-- **The blocked names**, after any run. -/
theorem mem_blocked_iff (hnew : Blocklist.new lower config = .ok list)
    (h : Runs lower list events w) {name : Text} :
    name ∈ w.list.blocked ↔ Named lower config events name := by
  induction h with
  | start =>
      obtain ⟨custom, _, hlist⟩ := Outcome.bind_eq_ok.mp hnew
      cases hlist
      simp [Named, sinceCleared, World.start]
  | @step events w w' e _ hstep ih =>
      rw [step_list hstep, Named, sinceCleared_concat]
      rw [Named] at ih
      cases hclears : e.clears with
      | true => simp [hclears]
      | false =>
          have hall : (∀ x ∈ events ++ [e], x.clears = false) ↔ ∀ x ∈ events, x.clears = false := by
            rw [List.forall_mem_append, List.forall_mem_singleton, and_iff_left hclears]
          rw [hall]
          simp [ih, or_and_right, exists_or, or_assoc]

/-! ### Answers -/

/-- The answers of the list in the state `w`, which the events have led to. -/
structure Answered (lower : Text → Text) (config : Config) (list : Blocklist)
    (events : List Event) (w : World) : Prop where
  /-- A record of `get_custom`, unless its value is "none". -/
  custom : ∀ domain value, w.list.isBlocked lower domain = some (.custom value) ↔
    list.getCustom lower domain = some value ∧ value ≠ "none".toList
  /-- The name has no record of its own, no parent has another one than "none", none of
  these names is on the whitelist, and one of them is blocked. -/
  blocks : ∀ domain, w.list.isBlocked lower domain = some list.blockAction ↔
    list.enabled = true ∧ normaliseDomain lower domain ≠ [] ∧
      list.custom.lookup (normaliseDomain lower domain) = none ∧
      (∀ value, list.getCustom lower domain = some value → value = "none".toList) ∧
      (∀ x ∈ withParents (normaliseDomain lower domain),
        x ∉ normalisedEntries lower config.whitelist) ∧
      ∃ x ∈ withParents (normaliseDomain lower domain), Named lower config events x
  others : ∀ domain action, w.list.isBlocked lower domain = some action →
    action = list.blockAction ∨ ∃ value, action = .custom value

/-- No stored value is empty. -/
theorem getCustom_ne_nil (hnew : Blocklist.new lower config = .ok list) {domain value : Text}
    (h : list.getCustom lower domain = some value) : value ≠ [] := by
  obtain ⟨custom, hcustom, hlist⟩ := Outcome.bind_eq_ok.mp hnew
  cases hlist
  by_cases hoff : (Mode.fromStr config.blocklistMode ≠ .none : Bool) = false ∨
      normaliseDomain lower domain = []
  · rw [(isBlocked_off hoff).2] at h
    cases h
  · rw [not_or, Bool.not_eq_false] at hoff
    rw [getCustom_eq hoff.1 rfl hoff.2] at h
    obtain ⟨x, _, hlookup⟩ := List.exists_of_findSome?_eq_some h
    exact customEntries_ne_nil hcustom _ (mem_of_lookup hlookup)

/-- **The answers over the life of a list**: after any run of `load` and `refresh`,
whatever the sources return. -/
theorem runs_answer (lower : Text → Text) (config : Config) (list : Blocklist)
    (events : List Event) (w : World) (hnew : Blocklist.new lower config = .ok list)
    (h : Runs lower list events w) : Answered lower config list events w := by
  have hwhite : list.whitelist = normalisedEntries lower config.whitelist := by
    obtain ⟨custom, _, hlist⟩ := Outcome.bind_eq_ok.mp hnew
    cases hlist
    rfl
  have hcustom : ∀ domain, w.list.getCustom lower domain = list.getCustom lower domain := by
    intro domain
    rw [h.list_eq]
    rfl
  have haction : w.list.blockAction = list.blockAction := by
    rw [h.list_eq]
    rfl
  refine ⟨fun domain value => ?_, fun domain => ?_, fun domain action hblocked => ?_⟩
  · rw [isBlocked_eq_some, hcustom]
    constructor
    · rintro (⟨_, hvalue, hget, _, hgives⟩ | ⟨_, _, _, _, hlisted⟩)
      · cases hvalue
        exact ⟨hget, hgives⟩
      · exact absurd (listed_eq_some.mp hlisted).1.symm blockAction_ne_custom
    · rintro ⟨hget, hgives⟩
      exact .inl ⟨value, rfl, hget, getCustom_ne_nil hnew hget, hgives⟩
  · have hgives : ∀ value, list.getCustom lower domain = some value →
        (value = [] ∨ value = "none".toList ↔ value = "none".toList) :=
      fun value hget => or_iff_right (getCustom_ne_nil hnew hget)
    have hsame : w.list.enabled = list.enabled ∧ w.list.custom = list.custom ∧
        w.list.whitelist = list.whitelist := by
      rw [h.list_eq]
      exact ⟨rfl, rfl, rfl⟩
    rw [isBlocked_eq_some, hcustom, listed_eq_some, haction, hsame.1, hsame.2.1, hsame.2.2,
      hwhite, forall₂_congr hgives, or_iff_right fun hrecord => ?_]
    · simp only [mem_blocked_iff hnew h, true_and]
    · obtain ⟨value, hvalue, _⟩ := hrecord
      exact blockAction_ne_custom hvalue
  · rw [isBlocked_eq_some] at hblocked
    rcases hblocked with ⟨value, rfl, _⟩ | ⟨_, _, _, _, hlisted⟩
    · exact .inr ⟨value, rfl⟩
    · exact .inl ((listed_eq_some.mp hlisted).1.trans haction)

/-- The list of one source, before anything was loaded. -/
def oneSourceList : Blocklist := ⟨true, .all, ∅, ∅, [], [['s']], [], .nxdomain⟩

theorem runs_afterLoad :
    Runs lowerAscii oneSourceList [.load, .loaded (some adText)] afterLoad := by
  have hload : Runs lowerAscii oneSourceList [.load]
      { World.start oneSourceList with loading := [['s']] } :=
    Trace.single rfl
  exact Trace.step (e := Event.loaded (some adText)) hload rfl

theorem runs_answer_afterLoad :
    Answered lowerAscii oneSource oneSourceList [.load, .loaded (some adText)] afterLoad :=
  runs_answer lowerAscii oneSource oneSourceList _ afterLoad rfl runs_afterLoad

end Runs

end FastDns.Filter
