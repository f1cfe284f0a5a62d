/-
A map of bounded size that forgets the entry used longest ago.

The entries are an association list, the one used last in front, so inserting,
replacing and touching an entry are all Mathlib's `AList.insert`. The bound is
part of the type: every `Lru` has a positive capacity and no more entries than
that. What a client needs is how each operation changes `get?`; only `put` of a
new key can take another key away, and then it takes one key away and changes
no value (`get?_put_ne`).
-/

import Mathlib.Data.List.AList

namespace FastDns.Lib

/-- An LRU map. -/
structure Lru (κ ν : Type) where
  capacity : Nat
  map : AList fun _ : κ => ν
  pos : 0 < capacity
  bounded : map.entries.length ≤ capacity

namespace Lru

variable {κ ν : Type}

def new (capacity : Nat) (pos : 0 < capacity) : Lru κ ν :=
  ⟨capacity, ∅, pos, Nat.zero_le _⟩

def len (c : Lru κ ν) : Nat := c.map.entries.length

/-- The entries, the one used last in front. -/
def toList (c : Lru κ ν) : List (κ × ν) := c.map.entries.map fun e => (e.1, e.2)

/-- A key is there at most once. -/
theorem nodup_keys (c : Lru κ ν) : (c.toList.map (·.1)).Nodup := by
  rw [toList, List.map_map]
  exact c.map.nodupKeys

/-- Forget everything. -/
def clear (c : Lru κ ν) : Lru κ ν := ⟨c.capacity, ∅, c.pos, Nat.zero_le _⟩

/-- An association list without the entry used longest ago. -/
def dropOldest (m : AList fun _ : κ => ν) : AList fun _ : κ => ν :=
  ⟨m.entries.dropLast, List.NodupKeys.sublist (List.dropLast_sublist _) m.nodupKeys⟩

variable [DecidableEq κ]

/-- The value of a key, with no effect on the order. -/
def get? (c : Lru κ ν) (k : κ) : Option ν := c.map.lookup k

theorem length_insert_le (m : AList fun _ : κ => ν) (k : κ) (v : ν) :
    (m.insert k v).entries.length ≤ m.entries.length + 1 := by
  rw [AList.entries_insert, List.length_cons]
  exact Nat.succ_le_succ (List.kerase_sublist k m.entries).length_le

theorem length_insert_of_mem {m : AList fun _ : κ => ν} {k : κ} (v : ν) (h : k ∈ m) :
    (m.insert k v).entries.length = m.entries.length := by
  have hkeys : (m.insert k v).keys.length = m.keys.length := by
    rw [AList.keys_insert, List.length_cons, List.length_erase_of_mem h]
    exact Nat.succ_pred_eq_of_pos (List.length_pos_of_mem h)
  simpa [AList.keys, List.keys] using hkeys

/-- Make `k` the key used last, if it is there. -/
def touch (c : Lru κ ν) (k : κ) : Lru κ ν :=
  match h : c.map.lookup k with
  | none => c
  | some v => ⟨c.capacity, c.map.insert k v, c.pos, by
      have hmem : k ∈ c.map := AList.lookup_isSome.mp (by rw [h]; rfl)
      rw [length_insert_of_mem v hmem]
      exact c.bounded⟩

/-- Store `v` under `k`, at the cost of the entry used longest ago if `k` is
new and there is no room. -/
def put (c : Lru κ ν) (k : κ) (v : ν) : Lru κ ν :=
  if h : (c.map.insert k v).entries.length ≤ c.capacity then
    ⟨c.capacity, c.map.insert k v, c.pos, h⟩
  else
    ⟨c.capacity, dropOldest (c.map.insert k v), c.pos, by
      rw [dropOldest, List.length_dropLast]
      have := length_insert_le c.map k v
      have := c.bounded
      omega⟩

/-- Remove a key. -/
def pop (c : Lru κ ν) (k : κ) : Lru κ ν :=
  ⟨c.capacity, c.map.erase k, c.pos, Nat.le_trans (List.kerase_sublist k _).length_le c.bounded⟩

/-! ### What the operations do to `get?` -/

section Laws

variable {c : Lru κ ν} {j k : κ} {v : ν}

@[simp] theorem get?_new {capacity : Nat} {pos : 0 < capacity} :
    (new capacity pos : Lru κ ν).get? k = none := rfl

@[simp] theorem get?_clear : c.clear.get? k = none := rfl

@[simp] theorem get?_touch : (c.touch k).get? j = c.get? j := by
  unfold touch get?
  split
  · rfl
  · rename_i v h
    by_cases hjk : j = k
    · rw [hjk, AList.lookup_insert, h]
    · rw [AList.lookup_insert_ne hjk]

@[simp] theorem get?_pop_self : (c.pop k).get? k = none := AList.lookup_erase k c.map

/-- Only the key itself is removed. -/
theorem get?_pop_ne (h : j ≠ k) : (c.pop k).get? j = c.get? j := AList.lookup_erase_ne h

/-- Dropping the oldest entry takes one key away at most. -/
theorem lookup_dropOldest (m : AList fun _ : κ => ν) (j : κ) :
    (dropOldest m).lookup j = m.lookup j ∨ (dropOldest m).lookup j = none := by
  cases h : (dropOldest m).lookup j with
  | none => exact .inr rfl
  | some v =>
      refine .inl ?_
      have hmem : Sigma.mk j v ∈ m.entries.dropLast :=
        List.of_mem_dlookup (show v ∈ List.dlookup j m.entries.dropLast from h)
      exact (List.mem_dlookup m.nodupKeys ((List.dropLast_sublist _).subset hmem)).symm

/-- The entry in front is never the one dropped, as long as another is there. -/
theorem lookup_dropOldest_insert {m : AList fun _ : κ => ν}
    (h : 1 < (m.insert k v).entries.length) : (dropOldest (m.insert k v)).lookup k = some v := by
  have hsome : (dropOldest (m.insert k v)).lookup k ≠ none := by
    rw [ne_eq, AList.lookup_eq_none, not_not]
    rw [AList.entries_insert] at h
    have hcons : (dropOldest (m.insert k v)).entries =
        ⟨k, v⟩ :: (List.kerase k m.entries).dropLast := by
      change (⟨k, v⟩ :: List.kerase k m.entries).dropLast = _
      cases hrest : List.kerase k m.entries with
      | nil => simp [hrest] at h
      | cons e es => rfl
    exact List.mem_map.mpr ⟨⟨k, v⟩, by rw [hcons]; exact List.mem_cons_self, rfl⟩
  rcases lookup_dropOldest (m.insert k v) k with hsame | hnone
  · rw [hsame, AList.lookup_insert]
  · exact absurd hnone hsome

@[simp] theorem get?_put_self : (c.put k v).get? k = some v := by
  unfold put get?
  split
  · exact AList.lookup_insert c.map
  · rename_i hfull
    have := c.pos
    exact lookup_dropOldest_insert (by omega)

/-- **Storing under one key leaves another as it was, or evicts it.** -/
theorem get?_put_ne (h : j ≠ k) :
    (c.put k v).get? j = c.get? j ∨ (c.put k v).get? j = none := by
  unfold put get?
  split
  · exact .inl (AList.lookup_insert_ne h)
  · rcases lookup_dropOldest (c.map.insert k v) j with hsame | hnone
    · exact .inl (hsame.trans (AList.lookup_insert_ne h))
    · exact .inr hnone

/-- A value after `put` is the one stored, or was there. -/
theorem get?_put {w : ν} (h : (c.put k v).get? j = some w) : w = v ∨ c.get? j = some w := by
  by_cases hjk : j = k
  · rw [hjk, get?_put_self] at h
    exact .inl (Option.some.inj h).symm
  · rcases get?_put_ne (c := c) (v := v) hjk with hsame | hnone
    · exact .inr (hsame ▸ h)
    · rw [hnone] at h
      cases h

/-- Storing under a key that is there evicts nothing. -/
theorem get?_put_of_mem (hmem : c.get? k ≠ none) (h : j ≠ k) : (c.put k v).get? j = c.get? j := by
  have hlen : (c.map.insert k v).entries.length ≤ c.capacity := by
    have hk : k ∈ c.map := by
      by_contra hk
      exact hmem (AList.lookup_eq_none.mpr hk)
    rw [length_insert_of_mem v hk]
    exact c.bounded
  unfold put get?
  rw [dif_pos hlen]
  exact AList.lookup_insert_ne h

/-- Removing keys leaves another as it was, or removes it. -/
theorem get?_foldl_pop (keys : List (κ × ν)) (c : Lru κ ν) (j : κ) :
    (keys.foldl (fun s e => s.pop e.1) c).get? j = c.get? j ∨
      (keys.foldl (fun s e => s.pop e.1) c).get? j = none := by
  induction keys generalizing c with
  | nil => exact .inl rfl
  | cons e rest ih =>
      rcases ih (c.pop e.1) with hsame | hnone
      · by_cases hj : j = e.1
        · refine .inr ?_
          rw [List.foldl_cons, hsame, hj, get?_pop_self]
        · refine .inl ?_
          rw [List.foldl_cons, hsame, get?_pop_ne hj]
      · exact .inr hnone

/-- An entry of the list is what its key gives. -/
theorem get?_of_mem_toList (h : (k, v) ∈ c.toList) : c.get? k = some v := by
  obtain ⟨⟨k', v'⟩, hmem, hpair⟩ := List.mem_map.mp h
  cases hpair
  exact List.mem_dlookup c.map.nodupKeys hmem

theorem get?_isSome_of_mem_keys (h : k ∈ c.toList.map (·.1)) : (c.get? k).isSome := by
  obtain ⟨⟨k', v⟩, hmem, hk⟩ := List.mem_map.mp h
  cases hk
  rw [get?_of_mem_toList hmem]
  rfl

theorem mem_keys_of_get? (h : c.get? k = some v) : k ∈ c.toList.map (·.1) := by
  have hmem : Sigma.mk k v ∈ c.map.entries := List.of_mem_dlookup h
  exact List.mem_map.mpr ⟨(k, v), List.mem_map.mpr ⟨⟨k, v⟩, hmem, rfl⟩, rfl⟩

/-- Looking keys up does not change what they give. -/
@[simp] theorem get?_foldl_touch {keys : List κ} : (keys.foldl touch c).get? j = c.get? j := by
  induction keys generalizing c with
  | nil => rfl
  | cons k rest ih => rw [List.foldl_cons, ih, get?_touch]

/-- Removing other keys leaves a key as it was. -/
theorem get?_foldl_pop_of_ne {keys : List (κ × ν)} (hne : ∀ e ∈ keys, k ≠ e.1) (c : Lru κ ν) :
    (keys.foldl (fun s e => s.pop e.1) c).get? k = c.get? k := by
  induction keys generalizing c with
  | nil => rfl
  | cons e rest ih =>
      rw [List.foldl_cons, ih fun e he => hne e (List.mem_cons_of_mem _ he)]
      exact get?_pop_ne (hne e List.mem_cons_self)

/-! ### The capacity never changes -/

@[simp] theorem capacity_touch : (c.touch k).capacity = c.capacity := by
  unfold touch
  split <;> rfl

@[simp] theorem capacity_put : (c.put k v).capacity = c.capacity := by
  unfold put
  split <;> rfl

@[simp] theorem capacity_pop : (c.pop k).capacity = c.capacity := rfl

end Laws

end Lru

end FastDns.Lib
