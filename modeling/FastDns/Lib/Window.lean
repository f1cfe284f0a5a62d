/-
A list of bounded length without repeated keys, whose oldest element makes room
for a new one.

The list is the end of a log (`window`): an element whose key is in the window
is not logged, any other is appended, and the window moves on by itself
(`add_window`). Adding a batch logs some of it, each element because its key was
not in the window when its turn came (`logAll_turns`).

* **`addAll_exact_iff`.** After a batch the live elements of the window are
  those of the batch exactly when the old elements split into ones that are
  pushed out in time and ones that agree with the batch.
-/

import Mathlib.Data.List.Nodup
import Mathlib.Data.List.Perm.Subperm

namespace FastDns.Lib

namespace Window

variable {α κ : Type} [DecidableEq κ]

/-- The last `cap` elements. -/
def window (cap : Nat) (log : List α) : List α := log.drop (log.length - cap)

/-- A full list loses its oldest element to the new one. -/
def push (cap : Nat) (xs : List α) (x : α) : List α :=
  (if xs.length ≥ cap then xs.drop 1 else xs) ++ [x]

/-- An element whose key is there already is not added. -/
def add (cap : Nat) (key : α → κ) (xs : List α) (x : α) : List α :=
  if xs.any fun e => key e == key x then xs else push cap xs x

/-- The same, as an entry of the log. -/
def logAdd (cap : Nat) (key : α → κ) (log : List α) (x : α) : List α :=
  if (window cap log).any fun e => key e == key x then log else log ++ [x]

/-- The elements whose key is not among those of `kept`. -/
def missing (key : α → κ) (kept ys : List α) : List α :=
  ys.filter fun y => !kept.any fun e => key e == key y

section Laws

variable {cap : Nat} {key : α → κ} {log xs ys kept : List α} {x : α}

theorem any_key_iff : (xs.any fun e => key e == key x) = true ↔ key x ∈ xs.map key := by
  simp only [List.any_eq_true, beq_iff_eq, List.mem_map]

theorem length_window_le : (window cap log).length ≤ cap := by
  rw [window, List.length_drop]
  omega

theorem window_of_le (h : xs.length ≤ cap) : window cap xs = xs := by
  rw [window, Nat.sub_eq_zero_of_le h, List.drop_zero]

theorem push_window (hcap : 0 < cap) (log : List α) (x : α) :
    push cap (window cap log) x = window cap (log ++ [x]) := by
  unfold push window
  rw [List.length_drop, List.length_append, List.length_singleton]
  by_cases hfull : log.length - (log.length - cap) ≥ cap
  · rw [if_pos hfull, List.drop_drop, ← List.drop_append_of_le_length (by omega)]
    congr 1
    omega
  · rw [if_neg hfull, ← List.drop_append_of_le_length (by omega)]
    congr 1
    omega

theorem add_window (hcap : 0 < cap) (log : List α) (x : α) :
    add cap key (window cap log) x = window cap (logAdd cap key log x) := by
  unfold add logAdd
  split
  · rfl
  · exact push_window hcap log x

theorem addAll_window (key : α → κ) (hcap : 0 < cap) (log ys : List α) :
    ys.foldl (add cap key) (window cap log) = window cap (ys.foldl (logAdd cap key) log) := by
  induction ys generalizing log with
  | nil => rfl
  | cons y ys ih => rw [List.foldl_cons, List.foldl_cons, add_window hcap, ih]

theorem push_sublist (cap : Nat) (xs : List α) (x : α) : (push cap xs x).Sublist (xs ++ [x]) := by
  unfold push
  split
  · exact (List.drop_sublist 1 xs).append_right [x]
  · exact List.Sublist.refl _

theorem mem_add {e : α} (he : e ∈ add cap key xs x) : e ∈ xs ∨ e = x := by
  unfold add at he
  split at he
  · exact .inl he
  · simpa using (push_sublist cap xs x).subset he

theorem add_ne_nil (cap : Nat) (key : α → κ) (xs : List α) (x : α) : add cap key xs x ≠ [] := by
  unfold add
  split
  · rename_i hdup
    rw [any_key_iff] at hdup
    exact List.map_eq_nil_iff.not.mp (List.ne_nil_of_mem hdup)
  · simp [push]

theorem length_add_le (hcap : 0 < cap) (h : xs.length ≤ cap) (x : α) :
    (add cap key xs x).length ≤ cap := by
  rw [← window_of_le h, add_window hcap]
  exact length_window_le

/-- No key comes in twice. -/
theorem nodup_add (h : (xs.map key).Nodup) (x : α) : ((add cap key xs x).map key).Nodup := by
  unfold add
  split
  · exact h
  rename_i hnew
  rw [any_key_iff] at hnew
  have hall : ((xs ++ [x]).map key).Nodup := by
    rw [List.map_append, List.nodup_append]
    refine ⟨h, List.nodup_singleton _, ?_⟩
    rintro _ hk _ hx rfl
    rw [List.map_singleton, List.mem_singleton] at hx
    exact hnew (hx ▸ hk)
  exact hall.sublist ((push_sublist cap xs x).map key)

theorem nodup_addAll (cap : Nat) (h : (xs.map key).Nodup) (ys : List α) :
    ((ys.foldl (add cap key) xs).map key).Nodup := by
  induction ys generalizing xs with
  | nil => exact h
  | cons y ys ih => exact ih (nodup_add h y)

/-- What a batch adds to the log: some of its elements in order, none of them
with a key that was in the window at its turn. -/
structure Logs (cap : Nat) (key : α → κ) (log ys logged : List α) : Prop where
  sublist : logged.Sublist ys
  turn : ∀ before y after, logged = before ++ y :: after →
    key y ∉ (window cap (log ++ before)).map key
  keys : ∀ y ∈ ys, key y ∈ (log ++ logged).map key

theorem logAll_turns (cap : Nat) (key : α → κ) (log ys : List α) :
    ∃ logged, ys.foldl (logAdd cap key) log = log ++ logged ∧ Logs cap key log ys logged := by
  induction ys generalizing log with
  | nil =>
      exact ⟨[], (List.append_nil log).symm, List.Sublist.refl _, by simp, by simp⟩
  | cons y ys ih =>
      by_cases hthere : key y ∈ (window cap log).map key
      · obtain ⟨logged, heq, hlogs⟩ := ih log
        refine ⟨logged, ?_, hlogs.sublist.cons y, hlogs.turn, ?_⟩
        · rw [List.foldl_cons, logAdd, if_pos (any_key_iff.mpr hthere), heq]
        · intro z hz
          rcases List.mem_cons.mp hz with rfl | hz
          · rw [List.map_append]
            exact List.mem_append_left _ (((List.drop_sublist _ log).map key).subset hthere)
          · exact hlogs.keys z hz
      · obtain ⟨logged, heq, hlogs⟩ := ih (log ++ [y])
        refine ⟨y :: logged, ?_, hlogs.sublist.cons_cons y, ?_, ?_⟩
        · rw [List.foldl_cons, logAdd, if_neg fun h => hthere (any_key_iff.mp h), heq]
          simp
        · intro before z after hsplit
          cases before with
          | nil =>
              cases hsplit
              simpa using hthere
          | cons b before =>
              cases hsplit
              simpa using hlogs.turn before z after rfl
        · intro z hz
          rcases List.mem_cons.mp hz with rfl | hz
          · simp
          · simpa using hlogs.keys z hz

/-- Nothing is in the window that was not there and is not in the batch. -/
theorem mem_addAll {e : α} (he : e ∈ ys.foldl (add cap key) xs) : e ∈ xs ∨ e ∈ ys := by
  induction ys generalizing xs with
  | nil => exact .inl he
  | cons y ys ih =>
      rcases ih he with hadd | hys
      · rcases mem_add hadd with hold | rfl
        · exact .inl hold
        · exact .inr List.mem_cons_self
      · exact .inr (List.mem_cons_of_mem y hys)

theorem mem_missing : x ∈ missing key kept ys ↔ x ∈ ys ∧ key x ∉ kept.map key := by
  rw [missing, List.mem_filter, ← any_key_iff]
  simp

theorem missing_append (zs : List α) :
    missing key kept (ys ++ zs) = missing key kept ys ++ missing key kept zs :=
  List.filter_append ys zs

end Laws

/-! ### A batch that takes the place of the old elements -/

/-- The old elements split into `gone`, just as many as have to make room for
what the batch adds to `kept`, and `kept`, which are live if and only if their
key is in the batch. An element the batch adds finds no older one with its key
when its turn comes. -/
structure Replaces (cap : Nat) (key : α → κ) (live : α → Bool) (xs ys gone kept : List α) :
    Prop where
  split : xs = gone ++ kept
  agrees : ∀ e ∈ kept, live e = true ↔ key e ∈ ys.map key
  room : gone.length = xs.length + (missing key kept ys).length - cap
  inTime : ∀ before y after, missing key kept ys = before ++ y :: after →
    key y ∉ (gone.drop (xs.length + before.length - cap)).map key

section Batch

variable {cap : Nat} {key : α → κ} {live : α → Bool} {xs ys gone kept : List α}

/-- The window over a log of which no more than `gone` has left it. -/
theorem window_split (hsplit : xs = gone ++ kept) (more : List α)
    (hle : xs.length + more.length - cap ≤ gone.length) :
    window cap (xs ++ more) =
      gone.drop (xs.length + more.length - cap) ++ (kept ++ more) := by
  subst hsplit
  rw [window, List.length_append, List.append_assoc, List.drop_append_of_le_length hle]

/-- At its turn, an element of such a batch is in the window only under a key of `kept`. -/
theorem Replaces.mem_window_iff (h : Replaces cap key live xs ys gone kept)
    (hys : (ys.map key).Nodup) {done todo : List α} {y : α} (hdone : ys = done ++ y :: todo) :
    key y ∈ (window cap (xs ++ missing key kept done)).map key ↔ key y ∈ kept.map key := by
  have hsplit : missing key kept ys =
      missing key kept done ++ missing key kept (y :: todo) := by
    rw [hdone, missing_append]
  have hle : xs.length + (missing key kept done).length - cap ≤ gone.length := by
    have hroom := h.room
    rw [hsplit, List.length_append] at hroom
    omega
  have hwindow := window_split h.split (missing key kept done) hle
  rw [hwindow, List.map_append, List.map_append, List.mem_append, List.mem_append]
  refine ⟨?_, fun hk => .inr (.inl hk)⟩
  rintro (hgone | hkept | hdone')
  · by_contra hnew
    refine h.inTime (missing key kept done) y (missing key kept todo) ?_ hgone
    rw [hsplit, missing, missing, List.filter_cons_of_pos]
    · rfl
    · simpa [← any_key_iff] using hnew
  · exact hkept
  · -- Two elements of the batch never have one key.
    obtain ⟨z, hz, hzy⟩ := List.mem_map.mp hdone'
    rw [hdone, List.map_append, List.nodup_append] at hys
    exact absurd hzy (hys.2.2 (key z) (List.mem_map_of_mem (mem_missing.mp hz).1) (key y)
      List.mem_cons_self)

/-- Such a batch logs just what it adds to `kept`. -/
theorem Replaces.logAll (h : Replaces cap key live xs ys gone kept) (hys : (ys.map key).Nodup) :
    ys.foldl (logAdd cap key) xs = xs ++ missing key kept ys := by
  -- The batch in two parts: what has been added and what is still to come.
  suffices hparts : ∀ todo done, ys = done ++ todo →
      todo.foldl (logAdd cap key) (xs ++ missing key kept done) = xs ++ missing key kept ys by
    simpa [missing] using hparts ys [] rfl
  intro todo
  induction todo with
  | nil =>
      intro done hdone
      rw [List.append_nil] at hdone
      rw [List.foldl_nil, hdone]
  | cons y todo ih =>
      intro done hdone
      have hnext : ys = (done ++ [y]) ++ todo := by simp [hdone]
      have hthere := h.mem_window_iff hys hdone
      have hstep : logAdd cap key (xs ++ missing key kept done) y =
          xs ++ missing key kept (done ++ [y]) := by
        rw [missing_append, logAdd]
        by_cases hkept : key y ∈ kept.map key
        · rw [if_pos (any_key_iff.mpr (hthere.mpr hkept))]
          simp [missing, any_key_iff.mpr hkept]
        · rw [if_neg fun hw => hkept (hthere.mp (any_key_iff.mp hw))]
          simp [missing, Bool.eq_false_iff.mpr fun hw => hkept (any_key_iff.mp hw)]
      rw [List.foldl_cons, hstep]
      exact ih (done ++ [y]) hnext

/-- After such a batch the window holds `kept` and what the batch added. -/
theorem Replaces.addAll (h : Replaces cap key live xs ys gone kept) (hcap : 0 < cap)
    (hlen : xs.length ≤ cap) (hys : (ys.map key).Nodup) :
    ys.foldl (add cap key) xs = kept ++ missing key kept ys := by
  have hstart := addAll_window key hcap xs ys
  rw [window_of_le hlen, h.logAll hys, window_split h.split _ (Nat.le_of_eq h.room.symm), ← h.room,
    List.drop_length, List.nil_append] at hstart
  exact hstart

/-- The other way round: a batch of at most `cap` elements leaves the end of the
old elements and what it has logged. -/
theorem addAll_eq (key : α → κ) (hcap : 0 < cap) (hlen : xs.length ≤ cap) (hbatch : ys.length ≤ cap) :
    ∃ gone kept logged, xs = gone ++ kept ∧ gone.length = xs.length + logged.length - cap ∧
      ys.foldl (add cap key) xs = kept ++ logged ∧ Logs cap key xs ys logged ∧
      ∀ before y after, logged = before ++ y :: after →
        key y ∉ (gone.drop (xs.length + before.length - cap)).map key := by
  obtain ⟨logged, heq, hlogs⟩ := logAll_turns cap key xs ys
  have hlogged := hlogs.sublist.length_le
  have hsplit := (List.take_append_drop (xs.length + logged.length - cap) xs).symm
  have hgone : (xs.take (xs.length + logged.length - cap)).length =
      xs.length + logged.length - cap := by
    rw [List.length_take]
    omega
  have hstart := addAll_window key hcap xs ys
  rw [window_of_le hlen, heq, window_split hsplit logged (Nat.le_of_eq hgone.symm)] at hstart
  refine ⟨_, _, logged, hsplit, hgone, ?_, hlogs, ?_⟩
  · rw [hstart, List.drop_of_length_le (Nat.le_of_eq hgone), List.nil_append]
  · intro before y after hlog hmem
    have hle : xs.length + before.length - cap ≤
        (xs.take (xs.length + logged.length - cap)).length := by
      rw [hgone, hlog, List.length_append]
      omega
    refine hlogs.turn before y after hlog ?_
    rw [window_split hsplit before hle, List.map_append]
    exact List.mem_append_left _ hmem

/-- A batch of at most `cap` elements leaves every key it brings in. -/
theorem key_mem_addAll (hcap : 0 < cap) (hlen : xs.length ≤ cap) (hbatch : ys.length ≤ cap)
    {y : α} (hy : y ∈ ys) (hnew : key y ∉ xs.map key) :
    key y ∈ (ys.foldl (add cap key) xs).map key := by
  obtain ⟨gone, kept, logged, _, _, heq, hlogs, _⟩ := addAll_eq key hcap hlen hbatch
  have hkey := hlogs.keys y hy
  rw [List.map_append, List.mem_append] at hkey
  rw [heq, List.map_append]
  exact List.mem_append_right _ (hkey.resolve_left hnew)

/-- Where there is nothing, nothing has to make room. -/
theorem replaces_nil (hbatch : ys.length ≤ cap) : Replaces cap key live [] ys [] [] where
  split := rfl
  agrees := fun _ he => absurd he List.not_mem_nil
  room := by
    have hall : missing key [] ys = ys := List.filter_eq_self.mpr fun _ _ => rfl
    rw [hall, List.length_nil]
    omega
  inTime := by simp

/-- A batch whose keys are all in the window afterwards is no longer than the window. -/
theorem length_le_of_keys (hcap : 0 < cap) (hlen : xs.length ≤ cap) (hys : (ys.map key).Nodup)
    (hsub : ys.map key ⊆ (ys.foldl (add cap key) xs).map key) : ys.length ≤ cap := by
  have hle := (List.Nodup.subperm hys hsub).length_le
  have hwindow : (ys.foldl (add cap key) xs).length ≤ cap := by
    rw [← window_of_le hlen, addAll_window key hcap]
    exact length_window_le
  rw [List.length_map, List.length_map] at hle
  omega

/-- What was added to `kept` is what was missing there, when no key of the batch is lost
and none is there twice. -/
theorem eq_missing {logged : List α} (hys : (ys.map key).Nodup) (hsub : logged.Sublist ys)
    (hnodup : ((kept ++ logged).map key).Nodup)
    (hkeys : ∀ y ∈ ys, ∃ e ∈ kept ++ logged, key e = key y) : logged = missing key kept ys := by
  rw [List.map_append, List.nodup_append] at hnodup
  refine (List.Nodup.perm_iff_eq_of_sublist hys.of_map hsub List.filter_sublist).mp ?_
  refine (List.perm_ext_iff_of_nodup (hys.of_map.sublist hsub)
    (hys.of_map.sublist List.filter_sublist)).mpr fun y => ?_
  refine Iff.trans ?_ mem_missing.symm
  constructor
  · intro hy
    refine ⟨hsub.subset hy, fun hkept => ?_⟩
    exact hnodup.2.2 (key y) hkept (key y) (List.mem_map_of_mem hy) rfl
  · rintro ⟨hy, hnew⟩
    obtain ⟨e, he, hkey⟩ := hkeys y hy
    rcases List.mem_append.mp he with hkept | hlogged
    · exact absurd (hkey ▸ List.mem_map_of_mem hkept) hnew
    · exact List.inj_on_of_nodup_map hys (hsub.subset hlogged) hy hkey ▸ hlogged

/-- A batch that replaces the old elements leaves its own keys live. -/
theorem Replaces.exact (h : Replaces cap key live xs ys gone kept) (hcap : 0 < cap)
    (hlen : xs.length ≤ cap) (hys : (ys.map key).Nodup) (hlive : ∀ y ∈ ys, live y = true) (k : κ) :
    (∃ e ∈ ys.foldl (add cap key) xs, live e = true ∧ key e = k) ↔ k ∈ ys.map key := by
  rw [h.addAll hcap hlen hys]
  constructor
  · rintro ⟨e, he, helive, rfl⟩
    rcases List.mem_append.mp he with hkept | hnew
    · exact (h.agrees e hkept).mp helive
    · exact List.mem_map_of_mem (mem_missing.mp hnew).1
  · intro hk
    obtain ⟨y, hy, rfl⟩ := List.mem_map.mp hk
    by_cases hkept : key y ∈ kept.map key
    · obtain ⟨e, he, hkey⟩ := List.mem_map.mp hkept
      exact ⟨e, List.mem_append_left _ he, (h.agrees e he).mpr (hkey ▸ hk), hkey⟩
    · exact ⟨y, List.mem_append_right _ (mem_missing.mpr ⟨hy, hkept⟩), hlive y hy, rfl⟩

/-- **The live keys after a batch are those of the batch exactly when it replaces
the old elements.** -/
theorem addAll_exact_iff (hcap : 0 < cap) (hlen : xs.length ≤ cap) (hxs : (xs.map key).Nodup)
    (hys : (ys.map key).Nodup) (hlive : ∀ y ∈ ys, live y = true) :
    (∀ k, (∃ e ∈ ys.foldl (add cap key) xs, live e = true ∧ key e = k) ↔ k ∈ ys.map key) ↔
      ∃ gone kept, Replaces cap key live xs ys gone kept := by
  constructor
  · intro hexact
    have hwhole := nodup_addAll cap hxs ys
    have hsubset : ys.map key ⊆ (ys.foldl (add cap key) xs).map key := by
      intro k hk
      obtain ⟨e, he, _, rfl⟩ := (hexact k).mpr hk
      exact List.mem_map_of_mem he
    have hbatch := length_le_of_keys hcap hlen hys hsubset
    obtain ⟨gone, kept, logged, hsplit, hroom, heq, ⟨hsub, _, _⟩, hturn⟩ :=
      addAll_eq key hcap hlen hbatch
    rw [heq] at hexact hwhole
    have hmissing : logged = missing key kept ys := by
      refine eq_missing hys hsub hwhole fun y hy => ?_
      obtain ⟨e, he, _, hkey⟩ := (hexact (key y)).mpr (List.mem_map_of_mem hy)
      exact ⟨e, he, hkey⟩
    refine ⟨gone, kept, hsplit, ?_, hmissing ▸ hroom, hmissing ▸ hturn⟩
    intro e he
    have hwindow : e ∈ kept ++ logged := List.mem_append_left _ he
    refine ⟨fun helive => (hexact (key e)).mp ⟨e, hwindow, helive, rfl⟩, fun hk => ?_⟩
    -- The batch is live under the key of `e`, and `e` is the only one with that key.
    obtain ⟨e', he', helive, hkey⟩ := (hexact (key e)).mpr hk
    exact List.inj_on_of_nodup_map hwhole he' hwindow hkey ▸ helive
  · rintro ⟨gone, kept, h⟩ k
    exact h.exact hcap hlen hys hlive k

end Batch

end Window

end FastDns.Lib
