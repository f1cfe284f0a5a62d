/-
The round-trip times that survive a restart (`save_rtt_cache` and
`load_rtt_cache` in `src/resolver/recursive.rs`).

A file holds entries of different lengths one after another: the length of the
address, the address, the round-trip time and the second in which the file was
written. The reader finds every entry the writer wrote (`loadRttLoop_flatMap`)
and returns on all bytes (`loadRttLoop_returns`). It then keeps or drops all of
them at once: what it compares with an hour is the clock itself, not the age of
the entry (`isRecent`).

A round-trip time is the eight bytes of its `f64`.
-/

import FastDns.Dns.Types
import Mathlib.Logic.Function.Basic

namespace FastDns.Resolver

open FastDns.Lib FastDns.Dns

/-! ### The file -/

/-- What `save_rtt_cache` writes for one server. -/
def rttEntry (now : UInt64) (entry : IpAddr × UInt64) : Bytes :=
  (match entry.1 with
    | .v4 ip => 4 :: ip.octets
    | .v6 ip => 16 :: ip.octets) ++ u64ToBeBytes entry.2 ++ u64ToBeBytes now

/-- `save_rtt_cache` at the second `now`. -/
def saveRttCache (rttData : List (IpAddr × UInt64)) (now : UInt64) : Bytes :=
  rttData.flatMap (rttEntry now)

/-- `HashMap<IpAddr, (f64, Instant)>` -/
abbrev RttMap := IpAddr → Option (UInt64 × Nat)

/-- The address of an entry, none for a length of no address. -/
def entryAddr (ipLen : Nat) (ipBytes : Bytes) : Option IpAddr :=
  if ipLen = 4 then
    match ipBytes with
    | [a, b, c, d] => some (.v4 ⟨a, b, c, d⟩)
    | _ => none
  else if ipLen = 16 then
    if h : ipBytes.length = 16 then some (.v6 ⟨ipBytes, h⟩) else none
  else none

/-- The age filter of `load_rtt_cache`. -/
def isRecent (now : UInt64) : Bool := now.toNat - 3600 = 0

/-- What `load_rtt_cache` does with the entry of an address, at the second `now` and
the instant `loaded`. -/
def keepRtt (now : UInt64) (loaded : Nat) (map : RttMap) (ip : IpAddr) (rtt : UInt64) : RttMap :=
  if isRecent now then Function.update map ip (some (rtt, loaded)) else map

/-- `load_rtt_cache` reads an entry: its address, its round-trip time and where
the next one starts, or none where the loop breaks. The stored second is read
and not used. -/
def readRttEntry {ε : Type} (buf : Bytes) (pos : Nat) :
    Outcome ε (Option (Option IpAddr × UInt64 × Nat)) := do
  let ipLen ← index buf pos
  let pos := pos + 1
  if pos + ipLen.toNat + 8 + 8 > buf.length then pure none
  else
    let ipBytes ← slice buf pos (pos + ipLen.toNat)
    let pos := pos + ipLen.toNat
    let rttBytes ← slice buf pos (pos + 8)
    match u64FromBeBytes rttBytes with
    | none => pure none
    | some rtt =>
        let pos := pos + 8
        let tsBytes ← slice buf pos (pos + 8)
        match u64FromBeBytes tsBytes with
        | none => pure none
        | some _ => pure (some (entryAddr ipLen.toNat ipBytes, rtt, pos + 8))

/-- The loop of `load_rtt_cache`. -/
def loadRttLoop {ε : Type} (buf : Bytes) (now : UInt64) (loaded : Nat) :
    Nat → Nat → RttMap → Outcome ε RttMap
  | 0, _, _ => .diverge
  | fuel + 1, pos, map =>
      if buf.length ≤ pos then .ok map
      else do
        match ← readRttEntry buf pos with
        | none => pure map
        | some (none, _, next) => loadRttLoop buf now loaded fuel next map
        | some (some ip, rtt, next) =>
            loadRttLoop buf now loaded fuel next (keepRtt now loaded map ip rtt)

/-- `load_rtt_cache`, given the content of the file if it can be read. -/
def loadRttCache {ε : Type} (file : Option Bytes) (now : UInt64) (loaded : Nat) :
    Outcome ε RttMap :=
  match file with
  | none => .ok fun _ => none
  | some buf =>
      if buf.length < 1 then .ok fun _ => none
      else loadRttLoop buf now loaded (buf.length + 1) 0 fun _ => none

/-! ### Any content -/

section Reading

variable {ε : Type} {buf : Bytes} {now : UInt64} {loaded pos : Nat}

/-- An entry is read within the buffer, and the next one starts behind it. -/
theorem readRttEntry_returns (hpos : pos < buf.length) :
    (readRttEntry buf pos : Outcome ε _) = .ok none ∨
      ∃ ip rtt next, (readRttEntry buf pos : Outcome ε _) = .ok (some (ip, rtt, next)) ∧
        pos < next ∧ next ≤ buf.length := by
  unfold readRttEntry
  rw [index_of_lt hpos, Outcome.ok_bind]
  dsimp only
  generalize buf[pos].toNat = ipLen
  by_cases hfits : pos + 1 + ipLen + 8 + 8 > buf.length
  · rw [if_pos hfits]
    exact .inl rfl
  have hslice : ∀ a b, a ≤ b → b ≤ pos + 1 + ipLen + 8 + 8 →
      (slice buf a b : Outcome ε Bytes) = .ok ((buf.drop a).take (b - a)) :=
    fun a b hab hb => slice_of_le hab (by omega)
  rw [if_neg hfits, hslice (pos + 1) (pos + 1 + ipLen) (by omega) (by omega), Outcome.ok_bind,
    hslice (pos + 1 + ipLen) (pos + 1 + ipLen + 8) (by omega) (by omega), Outcome.ok_bind]
  split
  · exact .inl rfl
  rw [hslice (pos + 1 + ipLen + 8) (pos + 1 + ipLen + 8 + 8) (by omega) (by omega),
    Outcome.ok_bind]
  split
  · exact .inl rfl
  · exact .inr ⟨_, _, _, rfl, by omega, by omega⟩

/-- The loop comes to an end on all bytes, without a read out of range. -/
theorem loadRttLoop_returns {fuel : Nat} (hpos : pos ≤ buf.length)
    (hfuel : buf.length < fuel + pos) (map : RttMap) :
    ∃ map', (loadRttLoop buf now loaded fuel pos map : Outcome ε RttMap) = .ok map' := by
  induction fuel generalizing pos map with
  | zero => omega
  | succ fuel ih =>
      unfold loadRttLoop
      by_cases hend : buf.length ≤ pos
      · exact ⟨map, if_pos hend⟩
      rw [if_neg hend]
      rcases readRttEntry_returns (ε := ε) (Nat.lt_of_not_le hend) with hnone | hsome
      · rw [hnone, Outcome.ok_bind]
        exact ⟨map, rfl⟩
      · obtain ⟨ip, rtt, next, hread, hnext, hle⟩ := hsome
        rw [hread, Outcome.ok_bind]
        cases ip with
        | none => exact ih hle (by omega) map
        | some ip => exact ih hle (by omega) _

theorem loadRttCache_returns (file : Option Bytes) (now : UInt64) (loaded : Nat) :
    ∃ map, (loadRttCache file now loaded : Outcome ε RttMap) = .ok map := by
  unfold loadRttCache
  cases file with
  | none => exact ⟨_, rfl⟩
  | some buf =>
      dsimp only
      split
      · exact ⟨_, rfl⟩
      · exact loadRttLoop_returns (Nat.zero_le _) (Nat.lt_succ_self _) _

end Reading

/-! ### What was written -/

section Written

variable {ε : Type} {buf : Bytes} {written now : UInt64} {loaded pos : Nat}

/-- The first byte of an entry says how long its address is. -/
theorem rttEntry_eq (written : UInt64) (ip : IpAddr) (rtt : UInt64) :
    ∃ (len : UInt8) (octets : Bytes),
      rttEntry written (ip, rtt) = len :: (octets ++ (u64ToBeBytes rtt ++ u64ToBeBytes written)) ∧
        octets ≠ [] ∧ len.toNat = octets.length ∧ entryAddr len.toNat octets = some ip := by
  cases ip with
  | v4 ip => exact ⟨4, ip.octets, rfl, List.cons_ne_nil _ _, rfl, rfl⟩
  | v6 ip =>
      have hne : ip.octets ≠ [] := by
        intro hnil
        have hsize := ip.size
        rw [hnil] at hsize
        cases hsize
      refine ⟨16, ip.octets, ?_, hne, ip.size.symm, dif_pos ip.size⟩
      simp [rttEntry]

/-- The reader finds an entry that the writer wrote. -/
theorem readRttEntry_rttEntry {ip : IpAddr} {rtt : UInt64}
    (h : StandsAt buf pos (rttEntry written (ip, rtt))) :
    (readRttEntry buf pos : Outcome ε _) =
      .ok (some (some ip, rtt, pos + (rttEntry written (ip, rtt)).length)) := by
  obtain ⟨len, octets, hentry, hne, hlen, haddr⟩ := rttEntry_eq written ip rtt
  have hwhole := h.le (by simp [hentry])
  rw [hentry] at h hwhole ⊢
  obtain ⟨hfirst, h⟩ := standsAt_cons.mp h
  obtain ⟨hip, h⟩ := standsAt_append.mp h
  obtain ⟨hrtt, hts⟩ := standsAt_append.mp h
  have hip' := hip.slice (ε := ε) hne
  have hrtt' := hrtt.slice (ε := ε) (List.cons_ne_nil _ _)
  have hts' := hts.slice (ε := ε) (List.cons_ne_nil _ _)
  simp only [List.length_cons, List.length_append, length_u64ToBeBytes] at hwhole hrtt' hts' ⊢
  unfold readRttEntry
  rw [index_eq_ok.mpr hfirst, Outcome.ok_bind]
  dsimp only
  rw [hlen, if_neg (by omega), hip', Outcome.ok_bind, hrtt', Outcome.ok_bind,
    u64FromBeBytes_toBeBytes]
  dsimp only
  rw [hts', Outcome.ok_bind, u64FromBeBytes_toBeBytes, ← hlen, haddr]
  simp only [Outcome.pure_eq, Outcome.ok.injEq, Option.some.injEq, Prod.mk.injEq, true_and]
  omega

/-- The map of the entries, where a later one replaces an earlier one. -/
def collect (now : UInt64) (loaded : Nat) (rttData : List (IpAddr × UInt64)) (map : RttMap) :
    RttMap :=
  rttData.foldl (fun map entry => keepRtt now loaded map entry.1 entry.2) map

theorem collect_cons (entry : IpAddr × UInt64) (rttData : List (IpAddr × UInt64)) (map : RttMap) :
    collect now loaded (entry :: rttData) map =
      collect now loaded rttData (keepRtt now loaded map entry.1 entry.2) := by
  simp only [collect, List.foldl_cons]

/-- The loop collects the entries of the file. -/
theorem loadRttLoop_flatMap {rttData : List (IpAddr × UInt64)} {fuel : Nat} (map : RttMap)
    (h : StandsAt buf pos (rttData.flatMap (rttEntry written)))
    (hend : pos + (rttData.flatMap (rttEntry written)).length = buf.length)
    (hfuel : rttData.length < fuel) :
    (loadRttLoop buf now loaded fuel pos map : Outcome ε RttMap) =
      .ok (collect now loaded rttData map) := by
  induction rttData generalizing fuel pos map with
  | nil =>
      obtain ⟨fuel, rfl⟩ := Nat.exists_eq_succ_of_ne_zero (Nat.ne_zero_of_lt hfuel)
      unfold loadRttLoop
      exact if_pos (Nat.le_of_eq hend.symm)
  | cons entry rttData ih =>
      obtain ⟨ip, rtt⟩ := entry
      obtain ⟨fuel, rfl⟩ := Nat.exists_eq_succ_of_ne_zero (Nat.ne_zero_of_lt hfuel)
      rw [List.flatMap_cons] at h hend
      rw [List.length_append] at hend
      obtain ⟨hentry, hrest⟩ := standsAt_append.mp h
      have hne : rttEntry written (ip, rtt) ≠ [] := by simp [rttEntry, u64ToBeBytes, u32ToBeBytes]
      have hlong := List.length_pos_iff.mpr hne
      unfold loadRttLoop
      rw [if_neg (by omega), readRttEntry_rttEntry hentry, Outcome.ok_bind, collect_cons]
      exact ih _ hrest (by omega) (Nat.lt_of_succ_lt_succ hfuel)

theorem loadRttCache_saveRttCache (rttData : List (IpAddr × UInt64)) (written now : UInt64)
    (loaded : Nat) :
    (loadRttCache (some (saveRttCache rttData written)) now loaded : Outcome ε RttMap) =
      .ok (collect now loaded rttData fun _ => none) := by
  have hlong : rttData.length ≤ (saveRttCache rttData written).length := by
    unfold saveRttCache
    rw [length_flatMap_wire]
    refine length_le_totalSize fun entry _ => List.length_pos_iff.mpr ?_
    simp [rttEntry, u64ToBeBytes, u32ToBeBytes]
  unfold loadRttCache
  dsimp only
  split
  · rename_i hempty
    obtain rfl : rttData = [] := List.length_eq_zero_iff.mp (by omega)
    rfl
  · refine loadRttLoop_flatMap _ (standsAt_self _) (Nat.zero_add _) ?_
    exact Nat.lt_succ_of_le hlong

end Written

/-! ### What is left of it -/

section Kept

variable {rttData : List (IpAddr × UInt64)} {now : UInt64} {loaded : Nat} {map : RttMap}

/-- The map has exactly the times of the list. -/
def Restored (rttData : List (IpAddr × UInt64)) (map : RttMap) : Prop :=
  ∀ ip rtt, (map ip).map Prod.fst = some rtt ↔ (ip, rtt) ∈ rttData

theorem collect_of_old (hold : isRecent now = false) : collect now loaded rttData map = map := by
  induction rttData with
  | nil => rfl
  | cons entry rttData ih =>
      rw [collect_cons, keepRtt, hold, if_neg Bool.false_ne_true]
      exact ih

theorem collect_of_not_mem {ip : IpAddr} (h : ip ∉ rttData.map Prod.fst) :
    collect now loaded rttData map ip = map ip := by
  induction rttData generalizing map with
  | nil => rfl
  | cons entry rttData ih =>
      rw [List.map_cons, List.mem_cons, not_or] at h
      rw [collect_cons, ih h.2, keepRtt]
      split
      · exact Function.update_of_ne h.1 _ _
      · rfl

/-- Each address of the list is found, if the entries are kept at all. -/
theorem collect_of_mem (hrecent : isRecent now = true)
    (hdistinct : (rttData.map Prod.fst).Nodup) {ip : IpAddr} {rtt : UInt64}
    (h : (ip, rtt) ∈ rttData) : collect now loaded rttData map ip = some (rtt, loaded) := by
  induction rttData generalizing map with
  | nil => cases h
  | cons entry rttData ih =>
      rw [List.map_cons, List.nodup_cons] at hdistinct
      rw [collect_cons]
      rcases List.mem_cons.mp h with rfl | h
      · rw [collect_of_not_mem hdistinct.1, keepRtt, if_pos hrecent, Function.update_self]
      · exact ih hdistinct.2 h

theorem restored_collect (loaded : Nat) (hrecent : isRecent now = true)
    (hdistinct : (rttData.map Prod.fst).Nodup) :
    Restored rttData (collect now loaded rttData fun _ => none) := by
  intro ip rtt
  constructor
  · intro h
    have hmem : ip ∈ rttData.map Prod.fst := by
      by_contra hno
      rw [collect_of_not_mem hno] at h
      cases h
    obtain ⟨⟨_, found⟩, hfound, rfl⟩ := List.mem_map.mp hmem
    rw [collect_of_mem hrecent hdistinct hfound] at h
    cases h
    exact hfound
  · intro h
    rw [collect_of_mem hrecent hdistinct h]
    rfl

end Kept

/-! ### The hour -/

/-- What a file written at one second is for a reader at another: within the hour
it gives the times back, after the hour it gives none. -/
def RoundTrips (rttData : List (IpAddr × UInt64)) (written now : UInt64) (loaded : Nat) : Prop :=
  ∃ map, (loadRttCache (some (saveRttCache rttData written)) now loaded :
      Outcome Empty RttMap) = .ok map ∧
    (written.toNat ≤ now.toNat → now.toNat < written.toNat + 3600 → Restored rttData map) ∧
    (written.toNat + 3600 ≤ now.toNat → ∀ ip, map ip = none)

section Hour

variable {rttData : List (IpAddr × UInt64)} {written now : UInt64} {loaded : Nat}

theorem isRecent_eq_true : isRecent now = true ↔ now.toNat ≤ 3600 := by
  rw [isRecent, decide_eq_true_eq, Nat.sub_eq_zero_iff_le]

/-- An empty map has the times of the empty list alone. -/
theorem restored_empty : Restored rttData (fun _ => none) ↔ rttData = [] := by
  constructor
  · intro h
    rw [List.eq_nil_iff_forall_not_mem]
    intro entry hmem
    exact absurd ((h entry.1 entry.2).mpr hmem) nofun
  · rintro rfl ip rtt
    simp

/-- The map of a list that is not empty has an address. -/
theorem not_forall_collect_eq_none (loaded : Nat) (hrecent : isRecent now = true)
    (hdistinct : (rttData.map Prod.fst).Nodup) (hne : rttData ≠ []) :
    ¬ ∀ ip, collect now loaded rttData (fun _ => none) ip = none := by
  intro hnone
  obtain ⟨entry, hmem⟩ := List.exists_mem_of_ne_nil _ hne
  have hfound : collect now loaded rttData (fun _ => none) entry.1 = some (entry.2, loaded) :=
    collect_of_mem hrecent hdistinct hmem
  rw [hnone] at hfound
  cases hfound

/-- In the first hour of the clock every entry is kept. -/
theorem roundTrips_iff_of_recent (hrecent : isRecent now = true)
    (hdistinct : (rttData.map Prod.fst).Nodup) (hne : rttData ≠ []) :
    RoundTrips rttData written now loaded ↔ now.toNat < written.toNat + 3600 := by
  have hload := loadRttCache_saveRttCache (ε := Empty) rttData written now loaded
  constructor
  · rintro ⟨map, hmap, _, hafter⟩
    rw [hload, Outcome.ok.injEq] at hmap
    subst hmap
    by_contra hpast
    exact not_forall_collect_eq_none loaded hrecent hdistinct hne
      (hafter (Nat.le_of_not_lt hpast))
  · intro hwithin
    exact ⟨_, hload, fun _ _ => restored_collect loaded hrecent hdistinct,
      fun hpast => absurd hwithin (Nat.not_lt.mpr hpast)⟩

/-- Later every entry is dropped. -/
theorem roundTrips_iff_of_old (hold : isRecent now = false) (hne : rttData ≠ []) :
    RoundTrips rttData written now loaded ↔
      ¬ (written.toNat ≤ now.toNat ∧ now.toNat < written.toNat + 3600) := by
  have hload := loadRttCache_saveRttCache (ε := Empty) rttData written now loaded
  have hdrops : collect now loaded rttData (fun _ => none) = fun _ => none := collect_of_old hold
  rw [hdrops] at hload
  constructor
  · rintro ⟨map, hmap, hwithin, _⟩ ⟨hfrom, hto⟩
    rw [hload, Outcome.ok.injEq] at hmap
    subst hmap
    exact hne (restored_empty.mp (hwithin hfrom hto))
  · intro hoff
    exact ⟨_, hload, fun hfrom hto => absurd ⟨hfrom, hto⟩ hoff, fun _ _ => rfl⟩

/-- **When the round-trip times survive a restart.** The reader returns on every
content of the file. It gives back what was written within the hour, and nothing
after the hour, exactly if there was nothing to give back or the clock itself is
within an hour of its zero just when it is within an hour of the writing. -/
theorem rttCache_roundTrips_iff (rttData : List (IpAddr × UInt64))
    (hdistinct : (rttData.map Prod.fst).Nodup) (written now : UInt64) (loaded : Nat) :
    (∀ file, ∃ map, (loadRttCache file now loaded : Outcome Empty RttMap) = .ok map) ∧
      (RoundTrips rttData written now loaded ↔
        rttData = [] ∨ now.toNat < written.toNat ∨
          (now.toNat < written.toNat + 3600 ↔ now.toNat ≤ 3600)) := by
  refine ⟨fun file => loadRttCache_returns file now loaded, ?_⟩
  by_cases hempty : rttData = []
  · have hload := loadRttCache_saveRttCache (ε := Empty) rttData written now loaded
    refine iff_of_true ⟨_, hload, fun _ _ => ?_, fun _ _ => ?_⟩ (.inl hempty)
    · rw [hempty]
      exact restored_empty.mpr rfl
    · rw [hempty]
      rfl
  rw [or_iff_right hempty]
  cases hrecent : isRecent now with
  | true =>
      have hclock := isRecent_eq_true.mp hrecent
      rw [roundTrips_iff_of_recent hrecent hdistinct hempty]
      omega
  | false =>
      have hclock : ¬ now.toNat ≤ 3600 := by
        rw [← isRecent_eq_true, hrecent]
        exact Bool.false_ne_true
      rw [roundTrips_iff_of_old hrecent hempty]
      omega

/-- A minute after the writing the time of a server is lost. -/
theorem rttCache_forgets :
    ¬ RoundTrips [(.v4 ⟨192, 0, 2, 1⟩, 0x4034000000000000)] 1700000000 1700000060 0 := by
  rintro ⟨map, hmap, hwithin, _⟩
  have hload := loadRttCache_saveRttCache (ε := Empty)
    [(.v4 ⟨192, 0, 2, 1⟩, 0x4034000000000000)] 1700000000 1700000060 0
  rw [collect_of_old (by decide), hmap, Outcome.ok.injEq] at hload
  subst hload
  exact absurd (restored_empty.mp (hwithin (by decide) (by decide))) (List.cons_ne_nil _ _)

/-- Two round-trip times are kept, as long as the clock is in its first hour. -/
theorem rttCache_roundTrips_at_zero :
    (∀ file, ∃ map, (loadRttCache file 60 0 : Outcome Empty RttMap) = .ok map) ∧
      RoundTrips [(.v4 ⟨192, 0, 2, 1⟩, 0x4034000000000000), (.v4 ⟨192, 0, 2, 2⟩, 0x4044000000000000)]
        0 60 0 := by
  obtain ⟨hreturns, hexact⟩ := rttCache_roundTrips_iff
    [(.v4 ⟨192, 0, 2, 1⟩, 0x4034000000000000), (.v4 ⟨192, 0, 2, 2⟩, 0x4044000000000000)]
    (by decide) 0 60 0
  exact ⟨hreturns, hexact.mpr (.inr (.inr (by decide)))⟩

end Hour

end FastDns.Resolver
