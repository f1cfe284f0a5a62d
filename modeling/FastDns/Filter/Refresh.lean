/-
The life of a block list: `load`, and the cycles of `refresh`
(`src/blocklist.rs`).

`load` and `refresh` are two tasks that share the set of blocked names. Between
any two of their steps the other task may take steps, and queries may run. A
cycle of `refresh` first clears the set and then fetches the sources one by one,
each with its own success or failure, so what it protects in between is only
what it has loaded again (`refresh_rebuilds`).
-/

import FastDns.Filter.Blocklist

namespace FastDns.Filter

open FastDns.Lib

/-! ### Steps -/

/-- The list, and how far the two tasks are. The last four fields are no part of
the program: they record what the sources returned. -/
structure World where
  list : Blocklist
  /-- The sources `load` still has to fetch. -/
  loading : List Text
  /-- The sources the cycle still has to fetch, none between two cycles. -/
  refreshing : Option (List Text)
  /-- The names in the last text that was loaded from a source. -/
  lastLoad : Text → Finset Text
  /-- The sources that were loaded since the set was cleared. -/
  since : Finset Text
  /-- The sources that failed since the set was cleared. -/
  failed : Finset Text
  /-- How often the set was cleared. -/
  cycles : Nat

/-- What may happen next. A fetch returns a text, or fails. -/
inductive Event where
  | load
  | loaded (body : Option Text)
  | wake
  | refreshed (body : Option Text)
  | sleep
  | query (domain : Text)

def World.start (list : Blocklist) : World := ⟨list, [], none, fun _ => ∅, ∅, ∅, 0⟩

section Steps

variable (lower : Text → Text)

/-- The fetch of a source has returned. -/
def World.fetched (w : World) (source : Text) (body : Option Text) : World :=
  let list := (w.list.loadSource lower body).1
  match body with
  | some data => { w with
      list
      lastLoad := Function.update w.lastLoad source (domains lower data)
      since := insert source w.since }
  | none => { w with list, failed := insert source w.failed }

/-- `blocked.clear()`, at the start of a cycle -/
def World.cleared (w : World) : World := { w with
  list := { w.list with blocked := ∅ }
  refreshing := some w.list.sources
  since := ∅
  failed := ∅
  cycles := w.cycles + 1 }

/-- One step of a task, or a query. -/
def World.step (w : World) : Event → Option World
  | .load =>
      if w.list.enabled ∧ w.loading = [] then some { w with loading := w.list.sources } else none
  | .loaded body =>
      match w.loading with
      | source :: rest => some { w.fetched lower source body with loading := rest }
      | [] => none
  | .wake => if w.list.enabled ∧ w.refreshing = none then some w.cleared else none
  | .refreshed body =>
      match w.refreshing with
      | some (source :: rest) => some { w.fetched lower source body with refreshing := some rest }
      | _ => none
  | .sleep => if w.refreshing = some [] then some { w with refreshing := none } else none
  | .query _ => some w

/-- The states of all runs of a configuration. -/
inductive Reached (config : Config) : World → Prop where
  | start {list : Blocklist} : Blocklist.new lower config = .ok list →
      Reached config (World.start list)
  | step {w w' : World} {e : Event} : Reached config w → w.step lower e = some w' →
      Reached config w'

/-- Everything a step can do. -/
theorem World.step_cases {w w' : World} {e : Event} (h : w.step lower e = some w') :
    (∃ rest, w' = { w with loading := rest }) ∨
    (∃ source rest body, w' = { w.fetched lower source body with loading := rest }) ∨
    w' = w.cleared ∨
    (∃ source rest body, w.refreshing = some (source :: rest) ∧
      w' = { w.fetched lower source body with refreshing := some rest }) ∨
    (w.refreshing = some [] ∧ w' = { w with refreshing := none }) := by
  cases e with
  | load =>
      simp only [World.step] at h
      split at h
      · cases h
        exact .inl ⟨_, rfl⟩
      · cases h
  | loaded body =>
      simp only [World.step] at h
      split at h
      · cases h
        exact .inr (.inl ⟨_, _, _, rfl⟩)
      · cases h
  | wake =>
      simp only [World.step] at h
      split at h
      · cases h
        exact .inr (.inr (.inl rfl))
      · cases h
  | refreshed body =>
      simp only [World.step] at h
      split at h
      · rename_i heq
        cases h
        exact .inr (.inr (.inr (.inl ⟨_, _, _, heq, rfl⟩)))
      · cases h
  | sleep =>
      simp only [World.step] at h
      split at h
      · rename_i heq
        cases h
        exact .inr (.inr (.inr (.inr ⟨heq, rfl⟩)))
      · cases h
  | query domain =>
      cases h
      exact .inl ⟨w.loading, rfl⟩

/-! ### What is protected -/

/-- The names the list has to block: until the first cycle everything that was
ever listed, and later what was loaded since the set was cleared. -/
def Listed (config : Config) (w : World) (name : Text) : Prop :=
  (∃ source ∈ w.since, name ∈ w.lastLoad source) ∨
    w.cycles = 0 ∧ (name ∈ normalisedEntries lower config.blocklist ∨
      ∃ source, name ∈ w.lastLoad source)

/-- These names are blocked, and every query sees it. Between two cycles they are
the names of every source that did not fail. -/
structure Protects (config : Config) (w : World) : Prop where
  blocked : ∀ name, Listed lower config w name → name ∈ w.list.blocked
  afterCycle : w.cycles ≠ 0 → w.refreshing = none →
    ∀ source ∈ config.blocklistSources, source ∉ w.failed → source ∈ w.since
  queries : w.list.enabled = true → ∀ domain, Listed lower config w (normaliseDomain lower domain) →
    w.list.NoException (normaliseDomain lower domain) →
    w.list.isBlocked lower domain = some w.list.blockAction

/-- The set against what the sources returned. -/
structure Covers (config : Config) (w : World) : Prop where
  sources : w.list.sources = config.blocklistSources
  named : ∀ source, ∀ domain ∈ w.lastLoad source, domain ≠ []
  manual : w.cycles = 0 → normalisedEntries lower config.blocklist ⊆ w.list.blocked
  first : w.cycles = 0 → ∀ source, w.lastLoad source ⊆ w.list.blocked
  since : ∀ source ∈ w.since, w.lastLoad source ⊆ w.list.blocked

/-- Every source is still to be fetched in this cycle, or was fetched in the last
one. -/
structure Progress (config : Config) (w : World) : Prop where
  pending : ∀ rest, w.refreshing = some rest → ∀ source ∈ config.blocklistSources,
    source ∈ rest ∨ source ∈ w.since ∨ source ∈ w.failed
  done : w.cycles ≠ 0 → w.refreshing = none → ∀ source ∈ config.blocklistSources,
    source ∈ w.since ∨ source ∈ w.failed

variable {lower} {config : Config} {w : World} {source other : Text} {body : Option Text}

/-- A fetch only adds to the set. -/
theorem World.subset_fetched : w.list.blocked ⊆ (w.fetched lower source body).list.blocked := by
  cases body with
  | some data =>
      change _ ⊆ (parseAndInsert lower data w.list.blocked).1
      rw [parseAndInsert_blocked]
      exact Finset.subset_union_left
  | none => exact Finset.Subset.refl _

/-- What was fetched last is what the source has listed. -/
theorem World.fetched_lastLoad (data : Text) :
    (w.fetched lower source (some data)).lastLoad source = domains lower data :=
  Function.update_self _ _ _

/-- The names that were just loaded are in the set. -/
theorem World.fetched_covers (data : Text) :
    (w.fetched lower source (some data)).lastLoad source ⊆
      (w.fetched lower source (some data)).list.blocked := by
  rw [fetched_lastLoad]
  change _ ⊆ (parseAndInsert lower data w.list.blocked).1
  rw [parseAndInsert_blocked]
  exact Finset.subset_union_right

theorem World.fetched_other (h : other ≠ source) :
    (w.fetched lower source body).lastLoad other = w.lastLoad other := by
  cases body with
  | some data => exact Function.update_of_ne h _ _
  | none => rfl

/-- What a source is known to have in the set, it has after a fetch. -/
theorem World.covered_fetched (h : w.lastLoad other ⊆ w.list.blocked) :
    (w.fetched lower source body).lastLoad other ⊆
      (w.fetched lower source body).list.blocked := by
  by_cases hother : other = source
  · subst hother
    cases body with
    | some data => exact fetched_covers data
    | none => exact h
  · rw [fetched_other hother]
    exact h.trans subset_fetched

/-- A load adds its names to the list. -/
theorem Covers.fetched (h : Covers lower config w) (source : Text) (body : Option Text) :
    Covers lower config (w.fetched lower source body) := by
  have hcycles : (w.fetched lower source body).cycles = w.cycles := by cases body <;> rfl
  constructor
  · rw [← h.sources]
    cases body <;> rfl
  · intro other domain hdomain
    by_cases hother : other = source
    · subst hother
      cases body with
      | some data =>
          rw [World.fetched_lastLoad] at hdomain
          exact ne_nil_of_mem_domains lower hdomain
      | none => exact h.named other domain hdomain
    · rw [World.fetched_other hother] at hdomain
      exact h.named other domain hdomain
  · intro hzero
    exact (h.manual (hcycles.symm.trans hzero)).trans World.subset_fetched
  · intro hzero other
    exact World.covered_fetched (h.first (hcycles.symm.trans hzero) other)
  · intro other hother
    cases body with
    | none => exact h.since other hother
    | some data =>
        rcases Finset.mem_insert.mp hother with rfl | hbefore
        · exact World.fetched_covers data
        · exact World.covered_fetched (h.since other hbefore)

/-- A cleared list covers nothing, and nothing is loaded. -/
theorem Covers.cleared (h : Covers lower config w) : Covers lower config w.cleared where
  sources := h.sources
  named := h.named
  manual hzero := absurd hzero (Nat.succ_ne_zero _)
  first hzero := absurd hzero (Nat.succ_ne_zero _)
  since source hsource := absurd hsource (Finset.notMem_empty source)

/-- The source that was just fetched is accounted for, and so are those before. -/
theorem World.fetched_accounted
    (h : other = source ∨ other ∈ w.since ∨ other ∈ w.failed) :
    other ∈ (w.fetched lower source body).since ∨ other ∈ (w.fetched lower source body).failed := by
  cases body with
  | some data =>
      rcases h with rfl | hsince | hfailed
      · exact .inl (Finset.mem_insert_self _ _)
      · exact .inl (Finset.mem_insert_of_mem hsince)
      · exact .inr hfailed
  | none =>
      rcases h with rfl | hsince | hfailed
      · exact .inr (Finset.mem_insert_self _ _)
      · exact .inl hsince
      · exact .inr (Finset.mem_insert_of_mem hfailed)

/-- **Every step keeps the set in order.** -/
theorem step_keeps {w' : World} {e : Event} (hstep : w.step lower e = some w')
    (hcovers : Covers lower config w) (hprogress : Progress config w) :
    Covers lower config w' ∧ Progress config w' := by
  rcases World.step_cases lower hstep with ⟨rest, rfl⟩ | ⟨source, rest, body, rfl⟩ | rfl |
    ⟨source, rest, body, hrefreshing, rfl⟩ | ⟨hrefreshing, rfl⟩
  · exact ⟨⟨hcovers.sources, hcovers.named, hcovers.manual, hcovers.first, hcovers.since⟩,
      hprogress.pending, hprogress.done⟩
  · have hfetched := hcovers.fetched source body
    have hsame : (w.fetched lower source body).refreshing = w.refreshing ∧
        (w.fetched lower source body).cycles = w.cycles := by cases body <;> exact ⟨rfl, rfl⟩
    refine ⟨⟨hfetched.sources, hfetched.named, hfetched.manual, hfetched.first, hfetched.since⟩,
      ?_, ?_⟩
    · intro left hleft other hother
      rcases hprogress.pending left (hsame.1.symm.trans hleft) other hother with hpending | hdone
      · exact .inl hpending
      · exact .inr (World.fetched_accounted (.inr hdone))
    · intro hcycles hleft other hother
      exact World.fetched_accounted (.inr (hprogress.done (fun hzero => hcycles
        (hsame.2.trans hzero)) (hsame.1.symm.trans hleft) other hother))
  · refine ⟨hcovers.cleared, ?_, ?_⟩
    · intro rest hrest other hother
      cases hrest
      exact .inl (hcovers.sources ▸ hother)
    · intro _ hnone
      cases hnone
  · have hfetched := hcovers.fetched source body
    refine ⟨⟨hfetched.sources, hfetched.named, hfetched.manual, hfetched.first, hfetched.since⟩,
      ?_, ?_⟩
    · intro left hleft other hother
      cases hleft
      rcases hprogress.pending _ hrefreshing other hother with hpending | hdone
      · rcases List.mem_cons.mp hpending with rfl | hrest
        · exact .inr (World.fetched_accounted (.inl rfl))
        · exact .inl hrest
      · exact .inr (World.fetched_accounted (.inr hdone))
    · intro _ hnone
      cases hnone
  · refine ⟨⟨hcovers.sources, hcovers.named, hcovers.manual, hcovers.first, hcovers.since⟩, ?_, ?_⟩
    · intro rest hrest
      cases hrest
    · intro _ _ other hother
      rcases hprogress.pending [] hrefreshing other hother with hpending | hdone
      · exact absurd hpending List.not_mem_nil
      · exact hdone

/-- **The run lemma** for both invariants. -/
theorem reached_keeps (h : Reached lower config w) :
    Covers lower config w ∧ Progress config w := by
  induction h with
  | @start list hnew =>
      obtain ⟨custom, _, hlist⟩ := Outcome.bind_eq_ok.mp hnew
      cases hlist
      refine ⟨⟨rfl, fun _ _ hdomain => absurd hdomain (Finset.notMem_empty _),
        fun _ => Finset.Subset.refl _, fun _ _ => Finset.empty_subset _,
        fun _ hsource => absurd hsource (Finset.notMem_empty _)⟩, ?_, ?_⟩
      · intro rest hrest
        cases hrest
      · intro hcycles
        exact absurd rfl hcycles
  | step _ hstep ih => exact step_keeps hstep ih.1 ih.2

/-- A listed name is on the list. -/
theorem Covers.blocked (h : Covers lower config w) {name : Text}
    (hlisted : Listed lower config w name) : name ∈ w.list.blocked := by
  rcases hlisted with ⟨source, hsource, hname⟩ | ⟨hzero, hmanual | ⟨source, hname⟩⟩
  · exact h.since source hsource hname
  · exact h.manual hzero hmanual
  · exact h.first hzero source hname

theorem Covers.ne_nil (h : Covers lower config w) {name : Text}
    (hlisted : Listed lower config w name) : name ≠ [] := by
  rcases hlisted with ⟨source, _, hname⟩ | ⟨_, hmanual | ⟨source, hname⟩⟩
  · exact h.named source name hname
  · rw [normalisedEntries, List.mem_toFinset, List.mem_filter] at hmanual
    simpa using hmanual.2
  · exact h.named source name hname

variable (lower) in
/-- **What a refresh keeps**: in every state of every run the list blocks what was
loaded since the set was cleared. -/
theorem refresh_rebuilds (config : Config) (w : World) (h : Reached lower config w) :
    Protects lower config w := by
  obtain ⟨hcovers, hprogress⟩ := reached_keeps h
  refine ⟨fun _ => hcovers.blocked, ?_, ?_⟩
  · intro hcycles hnone source hsource hfailed
    exact (hprogress.done hcycles hnone source hsource).resolve_right hfailed
  · intro henabled domain hlisted hexception
    exact Blocklist.isBlocked_of_mem lower henabled (hcovers.ne_nil hlisted) hexception
      (hcovers.blocked hlisted)

end Steps

/-! ### A cycle that fails -/

/-- One source, and nothing listed by hand. -/
def oneSource : Config where
  blocklistMode := "all".toList
  blocklistSources := [['s']]
  blocklist := []
  whitelist := []
  customDns := []
  nullroute := []
  blockResponse := []

/-- Lower case, for the ASCII text of the source. -/
def lowerAscii : Text → Text := List.map Char.toLower

/-- The text of the source. -/
def adText : Text := ['a', 'd', '.', 'x']

/-- The source was loaded at the start. -/
def afterLoad : World :=
  { (World.start ⟨true, .all, ∅, ∅, [], [['s']], [], .nxdomain⟩).fetched lowerAscii ['s']
      (some adText) with loading := [] }

theorem reached_afterLoad : Reached lowerAscii oneSource afterLoad := by
  have hload : Reached lowerAscii oneSource
      { World.start ⟨true, .all, ∅, ∅, [], [['s']], [], .nxdomain⟩ with loading := [['s']] } :=
    .step (e := .load) (.start rfl) rfl
  exact .step (e := .loaded (some adText)) hload rfl

theorem refresh_rebuilds_afterLoad :
    Reached lowerAscii oneSource afterLoad ∧ Protects lowerAscii oneSource afterLoad :=
  ⟨reached_afterLoad, refresh_rebuilds lowerAscii oneSource afterLoad reached_afterLoad⟩

/-- The source fails in the first cycle. -/
def afterFailure : World :=
  { afterLoad.cleared.fetched lowerAscii ['s'] none with refreshing := none }

theorem reached_afterFailure : Reached lowerAscii oneSource afterFailure := by
  have hcleared : Reached lowerAscii oneSource afterLoad.cleared :=
    .step (e := .wake) reached_afterLoad rfl
  have hfailed : Reached lowerAscii oneSource
      { afterLoad.cleared.fetched lowerAscii ['s'] none with refreshing := some [] } :=
    .step (e := .refreshed none) hcleared rfl
  exact .step (e := .sleep) hfailed rfl

/-- In the middle of a cycle the set is empty, and after a cycle in which the
source failed its names are no longer blocked. -/
theorem failed_cycle_unblocks :
    (Reached lowerAscii oneSource afterLoad.cleared ∧ afterLoad.cleared.list.blocked = ∅ ∧
      ¬ afterLoad.cleared.lastLoad ['s'] ⊆ afterLoad.cleared.list.blocked) ∧
    Reached lowerAscii oneSource afterFailure ∧ afterFailure.refreshing = none ∧
      adText ∈ afterFailure.lastLoad ['s'] ∧
      afterLoad.list.isBlocked lowerAscii adText = some .nxdomain ∧
      afterFailure.list.isBlocked lowerAscii adText = none := by
  have hloaded : adText ∈ afterLoad.lastLoad ['s'] := by decide +kernel
  refine ⟨⟨.step (e := .wake) reached_afterLoad rfl, rfl, fun hsubset => ?_⟩,
    reached_afterFailure, rfl, hloaded, by decide +kernel, by decide +kernel⟩
  exact absurd (hsubset hloaded) (Finset.notMem_empty _)

end FastDns.Filter
