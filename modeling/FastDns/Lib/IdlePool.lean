/-
A pool of idle items by key, with a bounded number for each key and a limit on
how long an item may lie idle.

An item is stored with the time of its release. Expired items are dropped lazily,
whenever an operation comes across them: `acquire` takes items from the end until
one has not expired, `release` and `cleanup` filter. A run (`Reaches`) is any
sequence of the three at times that do not go back, where an item is released
only while it is not in the pool; its log has the releases, the latest first.

Every item in the pool lies where it was released last (`Inv.logged`). So it is
there once, `acquire` returns it only for that key (`Inv.acquire_some`), and
returns nothing only if there is nothing to return (`Inv.acquire_none`).
-/

import Mathlib.Data.List.DropRight
import Mathlib.Data.List.Nodup
import Mathlib.Logic.Function.Basic

namespace FastDns.Lib

open scoped List

/-- The idle items of each key with the times of their release, the last one at
the end. -/
abbrev IdlePool (Key Item : Type) := Key → List (Item × Nat)

namespace IdlePool

variable {Key Item : Type}

/-- The entry has not expired. -/
def isIdle (timeout now : Nat) (entry : Item × Nat) : Bool := now - entry.2 < timeout

/-- The item lies in the pool under the key. -/
def Holds (pool : IdlePool Key Item) (key : Key) (item : Item) : Prop :=
  item ∈ (pool key).map Prod.fst

/-! ### Operations -/

section Operations

variable [DecidableEq Key]

/-- Take the last item that has not expired, and drop the expired ones behind it. -/
def acquire (timeout : Nat) (pool : IdlePool Key Item) (now : Nat) (key : Key) :
    Option Item × IdlePool Key Item :=
  let kept := (pool key).rdropWhile fun entry => !isIdle timeout now entry
  (kept.getLast?.map Prod.fst, Function.update pool key kept.dropLast)

/-- Put an item back, if there is room once the expired ones are gone. -/
def release (timeout limit : Nat) (pool : IdlePool Key Item) (now : Nat) (key : Key)
    (item : Item) : IdlePool Key Item :=
  let items := (pool key).filter (isIdle timeout now)
  Function.update pool key (if items.length < limit then items ++ [(item, now)] else items)

/-- Remove all expired items. -/
def cleanup (timeout : Nat) (pool : IdlePool Key Item) (now : Nat) : IdlePool Key Item :=
  fun key => (pool key).filter (isIdle timeout now)

variable {timeout limit now : Nat} {pool : IdlePool Key Item} {key : Key} {item : Item}

/-- Handing out an item only takes entries out. -/
theorem acquire_sublist (key' : Key) : (pool.acquire timeout now key).2 key' <+ pool key' := by
  unfold acquire
  dsimp only
  by_cases hkey : key' = key
  · subst hkey
    rw [Function.update_self]
    exact (List.dropLast_sublist _).trans (List.rdropWhile_prefix _ _).sublist
  · rw [Function.update_of_ne hkey]

/-- What is returned has not expired, and was the last of what is left. -/
theorem acquire_eq_some (h : (pool.acquire timeout now key).1 = some item) :
    ∃ time, now < time + timeout ∧
      (pool.acquire timeout now key).2 key ++ [(item, time)] <+: pool key := by
  unfold acquire at h ⊢
  dsimp only at h ⊢
  rw [Function.update_self]
  generalize hkept : (pool key).rdropWhile _ = kept at h ⊢
  obtain ⟨⟨_, time⟩, hlast, rfl⟩ := Option.map_eq_some_iff.mp h
  obtain ⟨init, rfl⟩ := List.getLast?_eq_some_iff.mp hlast
  refine ⟨time, ?_, ?_⟩
  · have hself := List.rdropWhile_idempotent (fun entry => !isIdle timeout now entry) (pool key)
    rw [hkept, List.rdropWhile_eq_self_iff] at hself
    have hage : now - time < timeout := by simpa [isIdle] using hself (List.concat_ne_nil _ _)
    omega
  · rw [List.dropLast_concat, ← hkept]
    exact List.rdropWhile_prefix _ _

/-- Nothing is returned only if everything has expired. -/
theorem acquire_eq_none (h : (pool.acquire timeout now key).1 = none) :
    ∀ entry ∈ pool key, isIdle timeout now entry = false := by
  unfold acquire at h
  rw [Option.map_eq_none_iff, List.getLast?_eq_none_iff, List.rdropWhile_eq_nil_iff] at h
  simpa using h

variable {Item' : Type} (f : Item → Item')

/-- The pool, with something else in the place of each item. The operations do not
look at the items: each commutes with it. -/
def map (pool : IdlePool Key Item) : IdlePool Key Item' := fun key => (pool key).map (Prod.map f id)

omit [DecidableEq Key] in
theorem filter_map_isIdle (entries : List (Item × Nat)) :
    (entries.map (Prod.map f id)).filter (isIdle timeout now) =
      (entries.filter (isIdle timeout now)).map (Prod.map f id) := by
  rw [List.filter_map]
  rfl

theorem map_update (entries : List (Item × Nat)) :
    (map f (Function.update pool key entries)) =
      Function.update (pool.map f) key (entries.map (Prod.map f id)) := by
  funext k
  by_cases hk : k = key
  · subst hk
    simp only [map, Function.update_self]
  · simp only [map, Function.update_of_ne hk]

/-- The pool does not look at its items, so another view of them makes no difference. -/
theorem acquire_map : (pool.map f).acquire timeout now key =
    ((pool.acquire timeout now key).1.map f, (pool.acquire timeout now key).2.map f) := by
  have hkept : ((pool.map f) key).rdropWhile (fun entry => !isIdle timeout now entry) =
      ((pool key).rdropWhile fun entry => !isIdle timeout now entry).map (Prod.map f id) := by
    rw [map, List.rdropWhile, List.rdropWhile, ← List.map_reverse, List.dropWhile_map,
      List.map_reverse]
    rfl
  unfold acquire
  dsimp only
  rw [hkept, map_update, List.getLast?_map, List.map_dropLast, Option.map_map, Option.map_map]
  rfl

theorem release_map : (pool.map f).release timeout limit now key (f item) =
    (pool.release timeout limit now key item).map f := by
  unfold release
  dsimp only
  rw [map_update, map, filter_map_isIdle, List.length_map]
  split
  · rw [List.map_append]
    rfl
  · rfl

omit [DecidableEq Key] in
theorem cleanup_map : (pool.map f).cleanup timeout now = (pool.cleanup timeout now).map f :=
  funext fun key => filter_map_isIdle f (pool key)

end Operations

/-! ### What holds of every item -/

/-- Every item in the pool has the property, for its key. -/
def Each (P : Key → Item → Prop) (pool : IdlePool Key Item) : Prop :=
  ∀ key, ∀ entry ∈ pool key, P key entry.1

section Each

variable {P : Key → Item → Prop} {pool : IdlePool Key Item} {timeout limit now : Nat} {key : Key}
  {item : Item}

/-- An empty pool has no items. -/
theorem each_empty : Each P (fun _ => []) := fun _ _ h => absurd h List.not_mem_nil

/-- What holds of all items holds of those that are left. -/
theorem Each.sublist (h : pool.Each P) {pool' : IdlePool Key Item}
    (hsub : ∀ key, pool' key <+ pool key) : pool'.Each P :=
  fun key entry hentry => h key entry ((hsub key).mem hentry)

theorem Each.cleanup (h : pool.Each P) : (pool.cleanup timeout now).Each P :=
  h.sublist fun _ => List.filter_sublist

variable [DecidableEq Key]

theorem Each.update (h : pool.Each P) {entries : List (Item × Nat)}
    (hentries : ∀ entry ∈ entries, P key entry.1) :
    Each P (Function.update pool key entries) := by
  intro key' entry hentry
  by_cases hkey : key' = key
  · subst hkey
    rw [Function.update_self] at hentry
    exact hentries entry hentry
  · rw [Function.update_of_ne hkey] at hentry
    exact h key' entry hentry

theorem Each.acquire (h : pool.Each P) : (pool.acquire timeout now key).2.Each P :=
  h.sublist acquire_sublist

/-- It holds of the one that is handed out. -/
theorem Each.acquired (h : pool.Each P) (hitem : (pool.acquire timeout now key).1 = some item) :
    P key item := by
  obtain ⟨time, _, hbegins⟩ := acquire_eq_some hitem
  exact h key (item, time) (hbegins.sublist.mem (by simp))

/-- An item with the property may be given back. -/
theorem Each.release (h : pool.Each P) (hitem : P key item) :
    (pool.release timeout limit now key item).Each P := by
  refine h.update fun entry hentry => ?_
  split at hentry
  · rcases List.mem_append.mp hentry with hold | hnew
    · exact h key entry (List.mem_of_mem_filter hold)
    · rw [List.mem_singleton.mp hnew]
      exact hitem
  · exact h key entry (List.mem_of_mem_filter hentry)

end Each

/-! ### The log of a run -/

/-- A call of `release`. -/
structure Release (Key Item : Type) where
  time : Nat
  key : Key
  item : Item

section Log

variable [DecidableEq Item] {log : List (Release Key Item)} {key : Key} {item : Item} {time : Nat}

/-- Where and when an item was released last. -/
def lastRelease (log : List (Release Key Item)) (item : Item) : Option (Key × Nat) :=
  (log.find? fun r => r.item = item).map fun r => (r.key, r.time)

theorem lastRelease_cons_self (time : Nat) (key : Key) (item : Item)
    (log : List (Release Key Item)) :
    lastRelease (⟨time, key, item⟩ :: log) item = some (key, time) := by
  simp [lastRelease]

theorem lastRelease_cons_of_ne {r : Release Key Item} (h : r.item ≠ item) :
    lastRelease (r :: log) item = lastRelease log item := by
  simp [lastRelease, h]

/-- The last release of an item is in the log. -/
theorem mem_of_lastRelease (h : lastRelease log item = some (key, time)) :
    ⟨time, key, item⟩ ∈ log := by
  obtain ⟨r, hfind, heq⟩ := Option.map_eq_some_iff.mp h
  have hitem : r.item = item := by simpa using List.find?_some hfind
  obtain ⟨rfl, rfl⟩ := Prod.mk.inj heq
  rw [← hitem]
  exact List.mem_of_find?_eq_some hfind

/-- No release of an item is later than its last one. -/
theorem time_le_of_lastRelease (hordered : log.Pairwise fun r old => old.time ≤ r.time)
    (h : lastRelease log item = some (key, time)) {r : Release Key Item} (hr : r ∈ log)
    (hitem : r.item = item) : r.time ≤ time := by
  induction log with
  | nil => cases hr
  | cons first log ih =>
      obtain ⟨hfirst, hordered⟩ := List.pairwise_cons.mp hordered
      by_cases hsame : first.item = item
      · subst hsame
        rw [lastRelease_cons_self] at h
        cases h
        rcases List.mem_cons.mp hr with rfl | hr
        · exact Nat.le_refl _
        · exact hfirst r hr
      · rw [lastRelease_cons_of_ne hsame] at h
        rcases List.mem_cons.mp hr with rfl | hr
        · exact absurd hitem hsame
        · exact ih hordered h hr

end Log

/-! ### The invariant -/

/-- What holds of a pool and the log of its run. -/
structure Inv [DecidableEq Item] (limit : Nat) (log : List (Release Key Item)) (now : Nat)
    (pool : IdlePool Key Item) : Prop where
  bounded : ∀ key, (pool key).length ≤ limit
  nodup : ∀ key, ((pool key).map Prod.fst).Nodup
  logged : ∀ key, ∀ entry ∈ pool key, lastRelease log entry.1 = some (key, entry.2)
  past : ∀ r ∈ log, r.time ≤ now
  ordered : log.Pairwise fun r old => old.time ≤ r.time

section Invariant

variable [DecidableEq Item] {limit now now' : Nat} {log : List (Release Key Item)}
  {pool pool' : IdlePool Key Item} {key key' : Key} {item : Item}

/-- Time passes and items go. -/
theorem Inv.of_sublist (h : Inv limit log now pool) (later : now ≤ now')
    (hsub : ∀ key, pool' key <+ pool key) : Inv limit log now' pool' where
  bounded key := (hsub key).length_le.trans (h.bounded key)
  nodup key := ((hsub key).map Prod.fst).nodup (h.nodup key)
  logged key entry hentry := h.logged key entry ((hsub key).mem hentry)
  past r hr := (h.past r hr).trans later
  ordered := h.ordered

/-- The release of an item from outside is logged. -/
theorem Inv.logRelease (h : Inv limit log now pool) (later : now ≤ now')
    (outside : ∀ k, ¬ pool.Holds k item) (key : Key) :
    Inv limit (⟨now', key, item⟩ :: log) now' pool where
  bounded := h.bounded
  nodup := h.nodup
  logged k entry hentry := by
    have hother : item ≠ entry.1 := by
      rintro rfl
      exact outside k (List.mem_map_of_mem hentry)
    rw [lastRelease_cons_of_ne hother]
    exact h.logged k entry hentry
  past r hr := by
    rcases List.mem_cons.mp hr with rfl | hr
    · exact Nat.le_refl _
    · exact (h.past r hr).trans later
  ordered := List.pairwise_cons.mpr ⟨fun old hmem => (h.past old hmem).trans later, h.ordered⟩

/-- An item whose release is logged is put at the end of a list with room for it. -/
theorem Inv.push [DecidableEq Key] (h : Inv limit log now pool)
    (hlast : lastRelease log item = some (key, now)) (outside : ¬ pool.Holds key item)
    (hroom : (pool key).length < limit) :
    Inv limit log now (Function.update pool key (pool key ++ [(item, now)])) where
  bounded k := by
    by_cases hk : k = key
    · subst hk
      rw [Function.update_self, List.length_append, List.length_singleton]
      omega
    · rw [Function.update_of_ne hk]
      exact h.bounded k
  nodup k := by
    by_cases hk : k = key
    · subst hk
      rw [Function.update_self, List.map_append, List.nodup_append]
      refine ⟨h.nodup k, List.nodup_singleton _, ?_⟩
      rintro _ hmem _ hnew rfl
      rw [List.map_singleton, List.mem_singleton] at hnew
      subst hnew
      exact outside hmem
    · rw [Function.update_of_ne hk]
      exact h.nodup k
  logged k entry hentry := by
    by_cases hk : k = key
    · subst hk
      rw [Function.update_self] at hentry
      rcases List.mem_append.mp hentry with hentry | hnew
      · exact h.logged k entry hentry
      · rw [List.mem_singleton.mp hnew]
        exact hlast
    · rw [Function.update_of_ne hk] at hentry
      exact h.logged k entry hentry
  past := h.past
  ordered := h.ordered

/-- An item lies under one key. -/
theorem Inv.holds_unique (h : Inv limit log now pool) (hkey : pool.Holds key item)
    (hkey' : pool.Holds key' item) : key = key' := by
  obtain ⟨entry, hentry, rfl⟩ := List.mem_map.mp hkey
  obtain ⟨entry', hentry', heq⟩ := List.mem_map.mp hkey'
  have hlogged' := h.logged key' entry' hentry'
  rw [heq, h.logged key entry hentry] at hlogged'
  exact congrArg Prod.fst (Option.some.inj hlogged')

end Invariant

/-! ### Runs -/

section Runs

variable [DecidableEq Key] [DecidableEq Item]

/-- The pools of all runs, with the log of the run and the time of its last call. -/
inductive Reaches (timeout limit : Nat) :
    List (Release Key Item) → Nat → IdlePool Key Item → Prop where
  | start (now : Nat) : Reaches timeout limit [] now fun _ => []
  | acquire {log : List (Release Key Item)} {now now' : Nat} {pool : IdlePool Key Item}
      (h : Reaches timeout limit log now pool) (later : now ≤ now') (key : Key) :
      Reaches timeout limit log now' (pool.acquire timeout now' key).2
  | release {log : List (Release Key Item)} {now now' : Nat} {pool : IdlePool Key Item}
      (h : Reaches timeout limit log now pool) (later : now ≤ now') (key : Key) {item : Item}
      (outside : ∀ k, ¬ pool.Holds k item) :
      Reaches timeout limit (⟨now', key, item⟩ :: log) now'
        (pool.release timeout limit now' key item)
  | cleanup {log : List (Release Key Item)} {now now' : Nat} {pool : IdlePool Key Item}
      (h : Reaches timeout limit log now pool) (later : now ≤ now') :
      Reaches timeout limit log now' (pool.cleanup timeout now')

variable {timeout limit now now' : Nat} {log : List (Release Key Item)}
  {pool : IdlePool Key Item} {key : Key} {item : Item}

/-- `release` purges one list and then adds to it, or does not. -/
theorem Inv.release (h : Inv limit log now pool) (later : now ≤ now')
    (outside : ∀ k, ¬ pool.Holds k item) :
    Inv limit (⟨now', key, item⟩ :: log) now' (pool.release timeout limit now' key item) := by
  have hsub : ∀ k, Function.update pool key ((pool key).filter (isIdle timeout now')) k <+
      pool k := by
    intro k
    by_cases hk : k = key
    · subst hk
      rw [Function.update_self]
      exact List.filter_sublist
    · rw [Function.update_of_ne hk]
  have hlogged := (h.logRelease later outside key).of_sublist (Nat.le_refl _) hsub
  unfold IdlePool.release
  dsimp only
  split
  · rename_i hroom
    have hout : ¬ Holds (Function.update pool key ((pool key).filter (isIdle timeout now')))
        key item := fun hmem => outside key (((hsub key).map Prod.fst).mem hmem)
    have hpush := hlogged.push (lastRelease_cons_self _ _ _ _) hout
      (by rwa [Function.update_self])
    rwa [Function.update_self, Function.update_idem] at hpush
  · exact hlogged

/-- Every run keeps the invariant. -/
theorem Reaches.inv (h : Reaches timeout limit log now pool) : Inv limit log now pool := by
  induction h with
  | start now => exact ⟨fun _ => Nat.zero_le _, fun _ => List.nodup_nil, nofun, nofun, .nil⟩
  | acquire _ later key ih => exact ih.of_sublist later acquire_sublist
  | release _ later key outside ih => exact ih.release later outside
  | cleanup _ later ih => exact ih.of_sublist later fun _ => List.filter_sublist

/-- **What is returned** was released last for the same key, has not expired, and
is gone from the pool. -/
theorem Inv.acquire_some (h : Inv limit log now pool) (later : now ≤ now')
    (hsome : (pool.acquire timeout now' key).1 = some item) :
    (∃ time, lastRelease log item = some (key, time) ∧ time ≤ now' ∧ now' < time + timeout) ∧
      ∀ k, ¬ (pool.acquire timeout now' key).2.Holds k item := by
  obtain ⟨time, hidle, hpre⟩ := acquire_eq_some hsome
  have hmem : (item, time) ∈ pool key := hpre.sublist.mem (by simp)
  have hlast := h.logged key _ hmem
  refine ⟨⟨time, hlast, (h.past _ (mem_of_lastRelease hlast)).trans later, hidle⟩, fun k hk => ?_⟩
  have hold : pool.Holds k item := ((acquire_sublist k).map Prod.fst).mem hk
  obtain rfl := h.holds_unique hold (List.mem_map_of_mem hmem)
  have hnodup := (hpre.sublist.map Prod.fst).nodup (h.nodup k)
  rw [List.map_append, List.nodup_append] at hnodup
  exact hnodup.2.2 item hk item (by simp) rfl

/-- **Nothing is returned** only if no item in the pool was released for the key
within the time-out. -/
theorem Inv.acquire_none (h : Inv limit log now pool) (later : now ≤ now')
    (hnone : (pool.acquire timeout now' key).1 = none) :
    (∀ r ∈ log, r.key = key → now' < r.time + timeout → ¬ pool.Holds key r.item) ∧
      ∀ item time, lastRelease log item = some (key, time) → now' < time + timeout →
        ∀ k, ¬ pool.Holds k item := by
  have hhere : ∀ r ∈ log, now' < r.time + timeout → ¬ pool.Holds key r.item := by
    intro r hr hidle hholds
    obtain ⟨entry, hentry, heq⟩ := List.mem_map.mp hholds
    have hlast := h.logged key entry hentry
    have hexpired := acquire_eq_none hnone entry hentry
    have htime := time_le_of_lastRelease h.ordered hlast hr heq.symm
    have hpast : entry.2 ≤ now := h.past _ (mem_of_lastRelease hlast)
    simp only [isIdle, decide_eq_false_iff_not] at hexpired
    omega
  refine ⟨fun r hr _ => hhere r hr, fun item time hlast hidle k hholds => ?_⟩
  obtain ⟨entry, hentry, rfl⟩ := List.mem_map.mp hholds
  have hsame := hlast.symm.trans (h.logged k entry hentry)
  obtain ⟨rfl, rfl⟩ := Prod.mk.inj (Option.some.inj hsame)
  exact hhere _ (mem_of_lastRelease hlast) hidle hholds

end Runs

end IdlePool

end FastDns.Lib
